import PennCloud.Frontend.IndexLinks
import PennCloud.Master.Config
import PennCloud.Master.States

/-!
# The admin page

`getState` reads the master's `STATES` reply, `parse_all_server` and `parse_id` cut
it into replicas and their fields, and `parse_server` makes a row of the page for
each, with a link to stop and a link to start it that carry nothing but the row's
number. `handle_stop_backend` and `handle_start_backend` look that number up in the
replies' lines again. What is read back is what the master wrote, in its order, so
the number leads to the replica of the row.
-/

namespace PennCloud

open Str

/-- The cells of a row; the links are those of its number. -/
def rowHtml (name ip port : Str) (running : Bool) (i : Nat) : Str :=
  "<tr><td>".toList ++ name ++ "</td><td>Backend Server</td><td>".toList ++ ip
    ++ "</td><td>".toList ++ port ++ "</td><td>".toList
    ++ (if running then "RUNNING</td>".toList else "DOWN</td>".toList)
    ++ "<td><a href=\"".toList ++ IndexLink.stopBackend.text i
    ++ "\">Stop</a><span> <span><a href=\"".toList ++ IndexLink.startBackend.text i
    ++ "\">Start</a></td></tr>".toList

/-- `atoi`. -/
def atoi (s : Str) : Int := (stol (cstr s)).getD 0

/-- `bzero(&dest, sizeof(dest))`. -/
def zeroAddr : Addr :=
  let zero : Fin 256 := ⟨0, by decide⟩
  ⟨zero, zero, zero, zero, ⟨0, by decide⟩⟩

/-- The row of a replica, by its number in the list of all. -/
def Place.row (p : Place) (alive : Bool) (i : Nat) : Str :=
  rowHtml (decimal p.node ++ "-".toList ++ decimal p.rep) p.addr.ip (decimal p.addr.port) alive i

/-- Its line of the reply. -/
def Place.line (p : Place) (alive : Bool) : Str := ['|'].intercalate (p.fields alive)

theorem atoi_decimal (n : Int) : atoi (decimal n) = n := by
  have hfree : '\x00' ∉ decimal n := notMem_decimal (by decide) (by decide)
  have hnum := stol_decimal n (t := []) (by simp)
  rw [List.append_nil] at hnum
  rw [atoi, cstr_eq hfree, hnum, Option.getD_some]

/-- A letter that is in no line. -/
theorem notMem_line {p : Place} {alive : Bool} {c : Char} (hbar : c ≠ '|')
    (hfree : ∀ f ∈ p.fields alive, c ∉ f) : c ∉ p.line alive := by
  simp only [Place.line, Place.fields, List.intercalate_cons_cons, List.intercalate_singleton]
  simp only [Place.fields, List.forall_mem_cons] at hfree
  obtain ⟨hnode, hrep, haddr, hstate, -⟩ := hfree
  simp [hnode, hrep, haddr, hstate, hbar]

end PennCloud

import PennCloud.Text

/-!
# Addresses

A `sockaddr_in` is four octets and a port, and `ip_to_string` prints it as
`a.b.c.d:port`. Servers compare addresses by that text, so two things matter: it
tells addresses apart, and read as a number it is its first octet.
-/

namespace PennCloud

open Str

/-- A `sockaddr_in`. -/
structure Addr where
  a : Fin 256
  b : Fin 256
  c : Fin 256
  d : Fin 256
  port : Fin 65536
  deriving DecidableEq, Repr

/-- An address of this machine. -/
def loopback (port : Fin 65536) : Addr := ⟨127, 0, 0, 1, port⟩

/-! Where three servers of one machine listen. -/

def node5000 : Addr := loopback ⟨5000, by decide⟩

def node6000 : Addr := loopback ⟨6000, by decide⟩

def node8000 : Addr := loopback ⟨8000, by decide⟩

/-- `ip_to_string`. -/
def ipToString (x : Addr) : Str :=
  decimal x.a ++ '.' :: (decimal x.b ++ '.' :: (decimal x.c ++ '.' ::
    (decimal x.d ++ ':' :: decimal x.port)))

/-- The texts before a separator can be told apart. -/
theorem sep_inj {c : Char} {a b x y : Str} (ha : c ∉ a) (hb : c ∉ b)
    (h : a ++ c :: x = b ++ c :: y) : a = b ∧ x = y := by
  have hlen : a.length = b.length := by
    have hi := find_sep x ha
    rw [h, find_sep y hb] at hi
    omega
  obtain ⟨hab, hxy⟩ := List.append_inj h hlen
  exact ⟨hab, (List.cons.inj hxy).2⟩

theorem decimal_inj {m n : Int} (h : decimal m = decimal n) : m = n := by
  have hm := stol_decimal m (t := []) (by simp)
  rw [h, stol_decimal n (t := []) (by simp)] at hm
  exact (Option.some.inj hm).symm

/-- **The text tells addresses apart.** -/
theorem ipToString_inj {x y : Addr} : ipToString x = ipToString y ↔ x = y := by
  refine ⟨fun h => ?_, fun h => h ▸ rfl⟩
  have hdot : ∀ n : Int, '.' ∉ decimal n := fun _ => notMem_decimal (by decide) (by decide)
  have hcolon : ∀ n : Int, ':' ∉ decimal n := fun _ => notMem_decimal (by decide) (by decide)
  obtain ⟨ha, h⟩ := sep_inj (hdot _) (hdot _) h
  obtain ⟨hb, h⟩ := sep_inj (hdot _) (hdot _) h
  obtain ⟨hc, h⟩ := sep_inj (hdot _) (hdot _) h
  obtain ⟨hd, h⟩ := sep_inj (hcolon _) (hcolon _) h
  have hfin : ∀ {k : Nat} {i j : Fin k}, decimal i = decimal j → i = j := fun h =>
    Fin.ext (Int.ofNat.inj (decimal_inj h))
  cases x
  cases y
  simp only [Addr.mk.injEq]
  exact ⟨hfin ha, hfin hb, hfin hc, hfin hd, hfin h⟩

/-- Its characters are digits, dots, a colon (and no sign). -/
theorem notMem_ipToString {x : Addr} {c : Char} (hd : c.isDigit = false) (hm : c ≠ '-')
    (hdot : c ≠ '.') (hcolon : c ≠ ':') : c ∉ ipToString x := by
  have hdec : ∀ n : Int, c ∉ decimal n := fun _ => notMem_decimal hd hm
  simp [ipToString, hdec, hdot, hcolon]

/-- Read as a number, an address is its first octet. -/
theorem stol_ipToString (x : Addr) (t : Str) : stol (ipToString x ++ t) = some (x.a : Int) := by
  rw [ipToString, List.append_assoc]
  exact stol_decimal _ (by simp)

end PennCloud

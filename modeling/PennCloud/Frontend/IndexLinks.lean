import PennCloud.Frontend.Links
import PennCloud.Storage.Session

/-!
# The links that carry an index

The breadcrumbs of a path, the servers and backends of the admin page and the mails
of a listing are linked by their position, printed with `to_string`. Each handler
has a loop of its own that adds the digits up again. `handle_back` alone adds the
new number to the old one where the others replace it, so that it multiplies by
eleven: a position of one digit comes out right and no other does.

The additions are those of `int`. A loop adds the character and takes off `'0'`
afterwards, so that the sum on the way has to fit too.
-/

namespace PennCloud

open Str

/-- The links that carry an index, and so the handlers that read it. -/
inductive IndexLink
  | back
  | stopServer
  | startServer
  | stopBackend
  | startBackend
  | showInbox
  | showSent
  /-- `read_all_emails` makes this one too; `handle_get` has no route for it. -/
  | showTrash
  | reply
  | forward
  deriving DecidableEq

namespace IndexLink

/-- What stands before the index. -/
def href : IndexLink → Str
  | back => "/back?index=".toList
  | stopServer => "/stopserver?index=".toList
  | startServer => "/startserver?index=".toList
  | stopBackend => "/stopbackend?index=".toList
  | startBackend => "/startbackend?index=".toList
  | showInbox => "/showinbox?id=".toList
  | showSent => "/showsent?id=".toList
  | showTrash => "/showtrash?id=".toList
  | reply => "/replyid=".toList
  | forward => "/forwardid=".toList

/-- The link to `i`, as `parse_path`, `parse_server`, `read_all_emails` and `parse_command`
print it. -/
def text (l : IndexLink) (i : Nat) : Str := l.href ++ decimal i

/-- The link as the path of a request; a form puts a `?` behind its action. -/
def requests (l : IndexLink) (i : Nat) : List Str :=
  match l with
  | reply | forward => [l.text i, l.text i ++ ['?']]
  | _ => [l.text i]

/-- The number in what stands behind the `=`. -/
def index : IndexLink → Str → Option Int
  | back => digitLoop addDigit 0
  | stopServer | startServer | stopBackend | startBackend => digitLoop appendDigit 0
  -- `parse_mailid`
  | showInbox | showSent | showTrash | reply | forward => fun s =>
    digitLoop appendDigit 0 (s.takeWhile (· ≠ '?'))

/-- What the handler decodes from a request for the path. -/
def follow (l : IndexLink) (path : Str) : Option Int :=
  (parsePath path).bind fun path => (behind '=' path).bind l.index

end IndexLink

/-- The loop of `goBack` over the folders, the outermost first: the last one goes while it is behind
`index`. -/
def eraseBehind {α : Type} (index : Int) : Nat → List α → List α
  | 0, path => path
  | n + 1, path => if index + 1 ≤ n then eraseBehind index n (path.eraseIdx n) else path

/-- The folders that are left when a breadcrumb is followed. -/
def followBreadcrumb {α : Type} (path : Str) (folders : List α) : Option (List α) :=
  (IndexLink.back.follow path).map fun index => eraseBehind index folders.length folders

/-! ## The loops -/

theorem asInt_some {n m : Int} : asInt n = some m ↔ m = n ∧ -2147483648 ≤ n ∧ n ≤ 2147483647 := by
  rw [asInt]
  split <;> simp <;> omega

theorem digitLoop_append (step : Int → Char → Option Int) (id : Int) (s t : Str) :
    digitLoop step id (s ++ t) = (digitLoop step id s).bind fun n => digitLoop step n t := by
  induction s generalizing id with
  | nil => rfl
  | cons c s ih =>
      rw [List.cons_append, digitLoop, digitLoop, Option.bind_assoc]
      simp only [ih]

theorem digitLoop_single (step : Int → Char → Option Int) (id : Int) (c : Char) :
    digitLoop step id [c] = step id c := by
  rw [digitLoop]
  cases step id c <;> rfl

theorem toNat_digitChar : ∀ d < 10, (Nat.digitChar d).toNat = 48 + d := by decide

theorem appendDigit_some {id n : Int} {d : Nat} (hd : d < 10) :
    appendDigit id (Nat.digitChar d) = some n
      ↔ n = id * 10 + d ∧ -2147483648 ≤ id * 10 ∧ id * 10 + d + 48 ≤ 2147483647 := by
  simp only [appendDigit, Option.bind_eq_some_iff, asInt_some, toNat_digitChar d hd]
  constructor
  · rintro ⟨_, ⟨rfl, h⟩, _, ⟨rfl, h'⟩, rfl, h''⟩
    omega
  · rintro ⟨rfl, h⟩
    exact ⟨_, ⟨rfl, by omega⟩, _, ⟨rfl, by omega⟩, by omega, by omega⟩

theorem addDigit_some {id n : Int} {d : Nat} (hd : d < 10)
    (h : addDigit id (Nat.digitChar d) = some n) : n = id + (id * 10 + d) := by
  obtain ⟨m, hm, hn⟩ := Option.bind_eq_some_iff.mp h
  rw [(asInt_some.mp hn).1, ((appendDigit_some hd).mp hm).1]

/-- The digits of `i` are those of `i / 10` and one more. -/
theorem digitLoop_toDigits (step : Int → Char → Option Int) {i : Nat} (h : 10 ≤ i) :
    digitLoop step 0 (Nat.toDigits 10 i)
      = (digitLoop step 0 (Nat.toDigits 10 (i / 10))).bind fun n =>
          step n (Nat.digitChar (i % 10)) := by
  rw [Nat.toDigits_of_base_le (by decide) h, digitLoop_append]
  simp only [digitLoop_single]

/-- **The loop that replaces the number inverts `to_string`** as long as the sums fit. -/
theorem appendLoop_iff (i : Nat) :
    digitLoop appendDigit 0 (decimal i) = some (i : Int) ↔ i + 48 ≤ 2147483647 := by
  show digitLoop appendDigit 0 (Nat.toDigits 10 i) = _ ↔ _
  induction i using Nat.strongRecOn with
  | ind i ih =>
    rcases Nat.lt_or_ge i 10 with hlt | hge
    · rw [Nat.toDigits_of_lt_base hlt, digitLoop_single, appendDigit_some hlt]
      omega
    · have hdigit : i % 10 < 10 := Nat.mod_lt _ (by decide)
      rw [digitLoop_toDigits _ hge, Option.bind_eq_some_iff]
      simp only [appendDigit_some hdigit]
      constructor
      · rintro ⟨n, -, hn, -, hfit⟩
        omega
      · intro hfit
        exact ⟨_, (ih (i / 10) (by omega)).mpr (by omega), by omega, by omega, by omega⟩

/-- The loop of `handle_back` comes out larger from the second digit on. -/
theorem addLoop_le {i : Nat} {n : Int} (h : digitLoop addDigit 0 (decimal i) = some n) :
    i ≤ n ∧ (10 ≤ i → i < n) := by
  replace h : digitLoop addDigit 0 (Nat.toDigits 10 i) = some n := h
  induction i using Nat.strongRecOn generalizing n with
  | ind i ih =>
    rcases Nat.lt_or_ge i 10 with hlt | hge
    · rw [Nat.toDigits_of_lt_base hlt, digitLoop_single] at h
      have hn := addDigit_some hlt h
      omega
    · have hdigit : i % 10 < 10 := Nat.mod_lt _ (by decide)
      rw [digitLoop_toDigits _ hge] at h
      obtain ⟨m, hm, hn⟩ := Option.bind_eq_some_iff.mp h
      have hle := (ih (i / 10) (by omega) hm).1
      have hsum := addDigit_some hdigit hn
      omega

theorem addLoop_iff (i : Nat) :
    digitLoop addDigit 0 (decimal i) = some (i : Int) ↔ i < 10 := by
  constructor
  · intro h
    by_contra hge
    exact absurd ((addLoop_le h).2 (by omega)) (by omega)
  · intro hlt
    revert i
    decide

/-! ## The links -/

namespace IndexLink

theorem behind_href (l : IndexLink) (s : Str) : behind '=' (l.href ++ s) = some s := by
  have hhref : l.href = l.href.dropLast ++ ['='] := by cases l <;> decide
  have hfree : '=' ∉ l.href.dropLast := by cases l <;> decide
  rw [hhref, List.append_assoc, List.singleton_append, behind_sep hfree]

theorem follow_href (l : IndexLink) {s : Str} (h : '%' ∉ s) :
    l.follow (l.href ++ s) = l.index s := by
  have hhref : '%' ∉ l.href := by cases l <;> decide
  have hplain : '%' ∉ l.href ++ s := by simp [hhref, h]
  rw [follow, parsePath_self hplain, Option.bind_some, behind_href, Option.bind_some]

theorem follow_back_iff (i : Nat) : back.follow (back.text i) = some (i : Int) ↔ i < 10 := by
  rw [text, follow_href _ (notMem_decimal (by decide) (by decide))]
  exact addLoop_iff i

/-- `parse_mailid` stops at a `?`. -/
theorem mailid_stops (i : Nat) :
    (decimal i).takeWhile (· ≠ '?') = decimal i ∧ (decimal i ++ ['?']).takeWhile (· ≠ '?')
      = decimal i := by
  have hfree : '?' ∉ decimal i := notMem_decimal (by decide) (by decide)
  refine ⟨List.takeWhile_eq_self_iff.mpr fun c hc => decide_eq_true fun he => hfree (he ▸ hc), ?_⟩
  exact (takeWhile_sep hfree []).1

theorem index_decimal {l : IndexLink} (h : l ≠ back) (i : Nat) :
    l.index (decimal i) = digitLoop appendDigit 0 (decimal i) := by
  have hstop := (mailid_stops i).1
  cases l with
  | back => exact absurd rfl h
  | stopServer | startServer | stopBackend | startBackend => rfl
  | showInbox | showSent | showTrash | reply | forward =>
      show digitLoop appendDigit 0 ((decimal i).takeWhile (· ≠ '?')) = _
      rw [hstop]

theorem mem_requests {l : IndexLink} {i : Nat} {path : Str} (h : path ∈ l.requests i) :
    path = l.text i ∨ ((l = reply ∨ l = forward) ∧ path = l.text i ++ ['?']) := by
  cases l <;> simpa [requests] using h

theorem follow_requests {l : IndexLink} (hl : l ≠ back) {i : Nat} {path : Str}
    (h : path ∈ l.requests i) : l.follow path = digitLoop appendDigit 0 (decimal i) := by
  have hplain : '%' ∉ decimal i := notMem_decimal (by decide) (by decide)
  rcases mem_requests h with rfl | ⟨hform, rfl⟩
  · rw [text, follow_href _ hplain, index_decimal hl]
  · have hquery : '%' ∉ decimal i ++ ['?'] := by simp [hplain]
    rw [text, List.append_assoc, follow_href _ hquery]
    have hmailid : l.index = fun s => digitLoop appendDigit 0 (s.takeWhile (· ≠ '?')) := by
      rcases hform with rfl | rfl <;> rfl
    rw [hmailid]
    show digitLoop appendDigit 0 ((decimal i ++ ['?']).takeWhile (· ≠ '?')) = _
    rw [(mailid_stops i).2]

theorem text_mem_requests (l : IndexLink) (i : Nat) : l.text i ∈ l.requests i := by
  cases l <;> simp [requests]

/-- **Every other handler decodes what was printed** as long as the sums fit. -/
theorem follow_iff {l : IndexLink} (hl : l ≠ back) (i : Nat) :
    (∀ path ∈ l.requests i, l.follow path = some (i : Int)) ↔ i + 48 ≤ 2147483647 := by
  rw [← appendLoop_iff]
  constructor
  · intro hall
    rw [← follow_requests hl (text_mem_requests l i)]
    exact hall _ (text_mem_requests l i)
  · intro hloop path hpath
    rw [follow_requests hl hpath, hloop]

end IndexLink

/-! ## The folders that are left -/

section Folders

variable {α : Type}

theorem eraseBehind_eq (index : Int) (n : Nat) (path : List α) (h : path.length = n) :
    eraseBehind index n path = path.take (index + 1).toNat := by
  induction n generalizing path with
  | zero => simp [eraseBehind, List.length_eq_zero_iff.mp h]
  | succ n ih =>
      rw [eraseBehind]
      split
      · rename_i hbehind
        -- the last folder goes
        rw [List.eraseIdx_eq_take_drop_succ, List.drop_eq_nil_of_le (by omega), List.append_nil,
          ih _ (by rw [List.length_take]; omega), List.take_take, Nat.min_eq_left (by omega)]
      · rw [List.take_of_length_le (by omega)]

/-- Following a breadcrumb leaves the folders up to the one that was decoded. -/
theorem followBreadcrumb_eq (path : Str) (folders : List α) :
    followBreadcrumb path folders
      = (IndexLink.back.follow path).map fun index => folders.take (index + 1).toNat := by
  rw [followBreadcrumb]
  exact congrArg (fun f => (IndexLink.back.follow path).map f)
    (funext fun index => eraseBehind_eq index _ folders rfl)

end Folders

/-- `goBack` keeps the open folder first, the loop keeps it last. -/
theorem goBack_eq (row : Str) (s : Storage) (index : Int) :
    s.goBack row index = Storage.refreshUpload row
      { s with path := (eraseBehind index s.path.length s.path.reverse).reverse } := by
  rw [Storage.goBack, eraseBehind_eq _ _ _ List.length_reverse, List.reverse_take,
    List.reverse_reverse, List.length_reverse]

/-- **Index links name the index they were made from exactly if it has one digit.** -/
theorem indexLinks_iff (i : Nat) :
    ((∀ l : IndexLink, ∀ path ∈ l.requests i, l.follow path = some (i : Int))
        ∧ ∀ folders : List FileInfo, i < folders.length →
          followBreadcrumb (IndexLink.back.text i) folders = some (folders.take (i + 1)))
      ↔ i < 10 := by
  constructor
  · rintro ⟨hlinks, -⟩
    exact (IndexLink.follow_back_iff i).mp (hlinks .back _ (IndexLink.text_mem_requests _ i))
  · intro hi
    have hback := (IndexLink.follow_back_iff i).mpr hi
    refine ⟨fun l => ?_, fun folders _ => ?_⟩
    · by_cases hl : l = .back
      · subst hl
        intro path hpath
        obtain rfl := List.mem_singleton.mp hpath
        exact hback
      · exact (IndexLink.follow_iff hl i).mpr (by omega)
    · rw [followBreadcrumb_eq, hback]
      rfl

/-- The breadcrumb of the eleventh folder is read as the twelfth's. -/
theorem tenth_misread : IndexLink.back.follow (IndexLink.back.text 10) ≠ some 10 := by decide

end PennCloud

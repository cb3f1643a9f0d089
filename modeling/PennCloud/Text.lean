import PennCloud.Lib.Search
import Mathlib.Data.List.TakeWhile

/-!
# `std::string` as the servers use it

A string is a list of characters, each standing for one byte. `size_t` values
are read modulo `2^64`, so `npos` is `-1`: adding one to it gives `0`, and a
count that comes out negative is larger than any string and means "to the end".
With that reading the chained `find`/`substr` calls of the source are transcribed
literally. Every `substr` of the key-value servers starts at a position found or
just past a match, so none of them starts past the end. `long` is an unbounded
integer.
-/

namespace PennCloud

abbrev Str := List Char

instance : LawfulBEq Str := inferInstance

namespace Str

def npos : Int := -1

/-- `s.find(pat)`. -/
def find (s pat : Str) : Int :=
  match Lib.firstIdx pat s with
  | some i => i
  | none => npos

/-- `s.find(pat, pos)`. -/
def findFrom (s pat : Str) (pos : Int) : Int :=
  match Lib.firstIdx pat (s.drop pos.toNat) with
  | some i => pos.toNat + i
  | none => npos

/-- `s.substr(pos, n)`; a negative `n` reaches to the end. -/
def substr (s : Str) (pos : Int) (n : Int := npos) : Str :=
  if n < 0 then s.drop pos.toNat else (s.drop pos.toNat).take n.toNat

/-- What `operator<<(const char*)` and `string(const char*)` take from a buffer. -/
def cstr (s : Str) : Str := s.takeWhile (· ≠ '\x00')

/-- `stringstream << n` for a `long`. -/
def decimal : Int → Str
  | .ofNat n => Nat.toDigits 10 n
  | .negSucc n => '-' :: Nat.toDigits 10 (n + 1)

def isspace (c : Char) : Bool := c ∈ [' ', '\t', '\n', '\x0b', '\x0c', '\r']

/-- The digits at the front of `s` as a number; `none` when there are none. -/
def leadingNat (s : Str) : Option Int :=
  if s.takeWhile Char.isDigit = [] then none
  else some (Nat.ofDigitChars 10 (s.takeWhile Char.isDigit) 0)

/-- `std::stol`: blanks, a sign, digits, and anything after them; `none` throws. -/
def stol (s : Str) : Option Int :=
  match s.dropWhile isspace with
  | '-' :: t => (leadingNat t).map (- ·)
  | '+' :: t => leadingNat t
  | t => leadingNat t

/-- `Worker::strnicmp(s1, s2, n) == 0`. -/
def strnicmp (s1 s2 : Str) (n : Nat) : Bool :=
  s1 ≠ [] && s2 ≠ [] && ((s1.take n).zip (s2.take n)).all fun p => p.1.toUpper == p.2.toUpper

def crlf : Str := ['\r', '\n']

/-- The `"\r\n.\r\n"` that ends a body. -/
def dotLine : Str := ['\r', '\n', '.', '\r', '\n']

/-- `s.substr(s.find("<") + 1, s.find(">") - s.find("<") - 1)`. -/
def angled (s : Str) : Str :=
  s.substr (s.find ['<'] + 1) (s.find ['>'] - s.find ['<'] - 1)

/-- `s.substr(s.find(">") + 1)`. -/
def pastAngled (s : Str) : Str := s.substr (s.find ['>'] + 1)

/-! ## Searching and cutting -/

theorem find_of_firstIdx {s pat : Str} {i : Nat} (h : Lib.firstIdx pat s = some i) :
    s.find pat = i := by rw [find, h]

theorem find_of_none {s pat : Str} (h : Lib.firstIdx pat s = none) : s.find pat = npos := by
  rw [find, h]

theorem find_ne_npos {s pat : Str} : s.find pat ≠ npos ↔ pat <:+: s := by
  constructor
  · intro h
    by_contra hno
    exact h (find_of_none (Lib.firstIdx_eq_none.mpr hno))
  · intro h
    obtain ⟨i, hi⟩ := Lib.firstIdx_isSome h
    rw [find_of_firstIdx hi, npos]
    omega

/-- A separator is found right after the first stretch free of it. -/
theorem find_sep {c : Char} {a : Str} (b : Str) (h : c ∉ a) :
    find (a ++ c :: b) [c] = a.length := find_of_firstIdx (Lib.firstIdx_sep b h)

theorem find_sep_none {c : Char} {a : Str} (h : c ∉ a) : find a [c] = npos :=
  find_of_none (Lib.firstIdx_sep_none h)

theorem find_append {s pat : Str} (t : Str) {i : Nat} (h : Lib.firstIdx pat s = some i) :
    find (s ++ t) pat = i := find_of_firstIdx (Lib.firstIdx_append t h)

@[simp] theorem substr_zero_npos (s : Str) : s.substr 0 = s := by simp [substr, npos]

/-- Cutting between two known lengths. -/
theorem substr_middle (a b c : Str) {i n : Int} (hi : i = a.length) (hn : n = b.length) :
    substr (a ++ b ++ c) i n = b := by
  subst hi hn
  have hneg : ¬ (b.length : Int) < 0 := by omega
  rw [substr, if_neg hneg]
  simp

theorem substr_rest (a b : Str) {i : Int} (hi : i = a.length) : substr (a ++ b) i = b := by
  subst hi
  simp [substr, npos]

theorem substr_after (a : Str) (c : Char) (b : Str) :
    substr (a ++ c :: b) (a.length + 1) = b := by
  rw [List.append_cons]
  exact substr_rest _ _ (by rw [List.length_append]; rfl)

/-- From behind a separator to where the next search stopped. -/
theorem substr_between (a : Str) (c : Char) (f b : Str) :
    substr (a ++ c :: f ++ b) (a.length + 1) ((a ++ c :: f).length - (a.length + 1)) = f := by
  rw [List.append_cons a c f]
  refine substr_middle _ _ _ (by rw [List.length_append]; rfl) ?_
  simp only [List.length_append, List.length_cons, List.length_nil]
  omega

/-- A count past `npos` reaches to the end. -/
theorem substr_wrap (a b : Str) {i n : Int} (hi : i = a.length) (hn : n < 0) :
    substr (a ++ b) i n = b := by
  subst hi
  simp [substr, hn]

theorem mem_substr {s : Str} {pos n : Int} {c : Char} (h : c ∈ s.substr pos n) : c ∈ s := by
  rw [substr] at h
  split at h
  · exact List.mem_of_mem_drop h
  · exact List.mem_of_mem_drop (List.mem_of_mem_take h)

theorem length_substr_le (s : Str) (pos n : Int) :
    (substr s pos n).length ≤ s.length - pos.toNat := by
  rw [substr]
  split
  · rw [List.length_drop]
  · rw [List.length_take, List.length_drop]
    exact Nat.min_le_right ..

theorem length_substr_le_count (s : Str) (pos : Int) {n : Int} (hn : 0 ≤ n) :
    (substr s pos n).length ≤ n.toNat := by
  rw [substr, if_neg (by omega)]
  exact List.length_take_le ..

/-- What is no letter has no other case. -/
theorem toLower_eq_of_lt {c d : Char} (hd : d.toNat < 65) (h : c.toLower = d) : c = d := by
  unfold Char.toLower at h
  split at h
  · rename_i hc
    have hlow : 65 ≤ c.val.toNat := UInt32.le_iff_toNat_le.mp hc.1
    have hhigh : c.val.toNat ≤ 90 := UInt32.le_iff_toNat_le.mp hc.2
    have hval := congrArg Char.toNat h
    have hsum : (c.val + ('a'.val - 'A'.val)).toNat = (c.val.toNat + 32) % 4294967296 :=
      UInt32.toNat_add ..
    rw [show Char.toNat ⟨c.val + ('a'.val - 'A'.val), _⟩ = (c.val + ('a'.val - 'A'.val)).toNat
      from rfl, hsum] at hval
    omega
  · exact h

theorem cstr_noNul (s : Str) : '\x00' ∉ cstr s := fun h => by
  have hne := List.mem_takeWhile_imp h
  simp at hne

/-- A C string goes on behind a text without a zero byte. -/
theorem cstr_append {s : Str} (h : '\x00' ∉ s) (t : Str) : cstr (s ++ t) = s ++ cstr t :=
  List.takeWhile_append_of_pos fun _ hc => decide_eq_true fun he => h (he ▸ hc)

/-- A text without a zero byte passes through a C string unchanged. -/
theorem cstr_eq {s : Str} (h : '\x00' ∉ s) : cstr s = s := by
  have happend := cstr_append h []
  rwa [List.append_nil, show cstr [] = [] from rfl, List.append_nil] at happend

/-! ## The `<..>` fields -/

theorem angled_field {a f : Str} (rest : Str) (ha : '<' ∉ a) (ha' : '>' ∉ a) (hf : '>' ∉ f) :
    angled (a ++ '<' :: f ++ '>' :: rest) = f := by
  have hlt : find (a ++ '<' :: f ++ '>' :: rest) ['<'] = a.length := by
    rw [List.append_assoc]
    exact find_sep _ ha
  have hgt : find (a ++ '<' :: f ++ '>' :: rest) ['>'] = (a ++ '<' :: f).length :=
    find_sep _ (by simp [ha', hf])
  rw [angled, hlt, hgt, Int.sub_sub]
  exact substr_between a '<' f ('>' :: rest)

theorem pastAngled_field {a f : Str} (rest : Str) (ha : '>' ∉ a) (hf : '>' ∉ f) :
    pastAngled (a ++ '<' :: f ++ '>' :: rest) = rest := by
  have hgt : find (a ++ '<' :: f ++ '>' :: rest) ['>'] = (a ++ '<' :: f).length :=
    find_sep _ (by simp [ha, hf])
  rw [pastAngled, hgt]
  exact substr_after (a ++ '<' :: f) '>' rest

/-! ## Numbers -/

/-- The characters of a printed number. -/
theorem mem_decimal {n : Int} {c : Char} (h : c ∈ decimal n) : c.isDigit = true ∨ c = '-' := by
  cases n with
  | ofNat n => exact Or.inl (Nat.isDigit_of_mem_toDigits (by decide) (by decide) h)
  | negSucc n =>
      rcases List.mem_cons.mp h with rfl | h
      · exact Or.inr rfl
      · exact Or.inl (Nat.isDigit_of_mem_toDigits (by decide) (by decide) h)

theorem notMem_decimal {n : Int} {c : Char} (hd : c.isDigit = false) (hm : c ≠ '-') :
    c ∉ decimal n := fun h => by
  rcases mem_decimal h with h | h
  · rw [hd] at h; exact Bool.noConfusion h
  · exact hm h

theorem leadingNat_toDigits (n : Nat) {t : Str} (ht : ∀ c ∈ t.head?, c.isDigit = false) :
    leadingNat (Nat.toDigits 10 n ++ t) = some (n : Int) := by
  have hall : ∀ c ∈ Nat.toDigits 10 n, c.isDigit = true := fun c hc =>
    Nat.isDigit_of_mem_toDigits (by decide) (by decide) hc
  have htake : (Nat.toDigits 10 n ++ t).takeWhile Char.isDigit = Nat.toDigits 10 n := by
    rw [List.takeWhile_append_of_pos hall]
    cases t with
    | nil => simp
    | cons c t => simp [ht c (by simp)]
  rw [leadingNat, htake, if_neg Nat.toDigits_ne_nil, Nat.ofDigitChars_ten_toDigits]

theorem digit_notSpace {c : Char} (h : c.isDigit = true) :
    isspace c = false ∧ c ≠ '-' ∧ c ≠ '+' := by
  refine ⟨?_, ?_, ?_⟩
  · rw [isspace, decide_eq_false_iff_not]
    intro hc
    simp only [List.mem_cons, List.not_mem_nil, or_false] at hc
    rcases hc with rfl | rfl | rfl | rfl | rfl | rfl <;> exact absurd h (by decide)
  · rintro rfl; exact absurd h (by decide)
  · rintro rfl; exact absurd h (by decide)

/-- **A number is read back as it was printed**, whatever non-digit follows it. -/
theorem stol_decimal (n : Int) {t : Str} (ht : ∀ c ∈ t.head?, c.isDigit = false) :
    stol (decimal n ++ t) = some n := by
  cases n with
  | ofNat n =>
      obtain ⟨d, ds, hds⟩ := List.exists_cons_of_ne_nil (Nat.toDigits_ne_nil (n := n) (b := 10))
      have hd : d.isDigit = true :=
        Nat.isDigit_of_mem_toDigits (b := 10) (n := n) (by decide) (by decide) (by simp [hds])
      obtain ⟨hsp, hminus, hplus⟩ := digit_notSpace hd
      have hdrop : (d :: ds ++ t).dropWhile isspace = d :: ds ++ t := by simp [hsp]
      have hlead := leadingNat_toDigits n ht
      rw [decimal, stol, hds, hdrop]
      rw [hds] at hlead
      split
      · rename_i heq; exact absurd (List.cons.inj heq).1 hminus
      · rename_i heq; exact absurd (List.cons.inj heq).1 hplus
      · exact hlead
  | negSucc n =>
      have hdrop : (('-' :: Nat.toDigits 10 (n + 1)) ++ t).dropWhile isspace
          = '-' :: (Nat.toDigits 10 (n + 1) ++ t) := by
        rw [List.cons_append, List.dropWhile_cons_of_neg (by decide)]
      rw [decimal, stol, hdrop]
      show (leadingNat _).map _ = _
      rw [leadingNat_toDigits _ ht]
      rfl

end Str

end PennCloud

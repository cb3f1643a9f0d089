import PennCloud.Frontend.Decoding

/-!
# The Cookie header

`request` cuts a Cookie line into pairs with `strtok`, and each pair into its name
and value with `strtok` again. The function keeps one position for all its callers,
so that the inner calls take the outer one's place: when the loop asks for the next
pair, `strtok` goes on in the copy of the pair it has just cut, at its end, and
finds nothing. Whatever stands behind the first pair is not read.

The value still has its end attached: a `;` behind a pair, a line break behind the
last one. The test for the `;` looks at the letter before the last one and so never
finds it, and two letters go where one should.

The local arrays are taken as zero-filled: `strncpy` puts no zero behind the value.
-/

namespace PennCloud

open Str

/-- `strncpy` of the value without its end; a token of one letter would be copied with a
huge count. -/
def cutValue (token : Str) : Option Str :=
  if token.length < 2 then none
  else if token[token.length - 2]? = some ';' then some (token.take (token.length - 1))
  else some (token.take (token.length - 2))

/-- One round of the loop: the name, the value and where `strtok` goes on. -/
def cookieRound (token : Str) : Option ((Str × Str) × Str) :=
  if 256 ≤ token.length then none
  else (strtok ['='] token).bind fun key => (strtok ['='] key.2).bind fun token =>
    (cutValue token.1).bind fun value =>
      if 128 ≤ key.1.length ∨ 128 ≤ value.length then none else some ((key.1, value), token.2)

/-- The rounds from the position that `strtok` has kept, and what they assign to `cookies`. -/
def cookieLoop : Nat → Str → Option (List (Str × Str))
  | 0, _ => none
  | n + 1, kept => match strtok [' '] kept with
    | none => some []
    | some (token, _) => (cookieRound token).bind fun r => (cookieLoop n r.2).map (r.1 :: ·)

/-- What a Cookie line assigns; there is nothing where an array overflows or a token is missing. -/
def cookieLine (copy : Str) : Option (List (Str × Str)) :=
  if 512 ≤ (copy.drop 8).length then none else cookieLoop (copy.length + 1) (copy.drop 8)

/-- `cookies[name]` after the assignments. -/
def assigned (assignments : List (Str × Str)) (name : Str) : Option Str :=
  assignments.reverse.lookup name

/-- A name or a value of a cookie. -/
def CookieText (s : Str) : Prop :=
  s ≠ [] ∧ ∀ c ∈ s, c ∉ ['=', ';', ' '] ∧ 32 ≤ c.toNat ∧ c.toNat ≠ 127

/-- The pairs as a browser writes them. -/
def cookiePairs (pairs : List (Str × Str)) : Str :=
  [';', ' '].intercalate (pairs.map fun p => p.1 ++ '=' :: p.2)

/-- A Cookie line that fits the arrays. -/
structure CookieHeader where
  pairs : List (Str × Str)
  ne : pairs ≠ []
  distinct : (pairs.map Prod.fst).Nodup
  legal : ∀ p ∈ pairs, CookieText p.1 ∧ CookieText p.2
  short : ∀ p ∈ pairs, p.1.length < 128 ∧ p.2.length < 128 ∧ p.1.length + p.2.length + 3 < 256
  fits : (cookiePairs pairs ++ crlf).length < 512

def cookieField : Str := "Cookie: ".toList

/-- The line with its end, as `request` has it. -/
def CookieHeader.line (h : CookieHeader) : Str := cookieField ++ (cookiePairs h.pairs ++ crlf)

/-- The map holds the pairs and nothing else. -/
def Holds (pairs : List (Str × Str)) (assignments : Option (List (Str × Str))) : Prop :=
  ∃ as, assignments = some as ∧ ∀ name, assigned as name = pairs.lookup name

/-! ## Tokens -/

/-- The letters up to a delimiter are a token. -/
theorem strtok_token {delim a : Str} {d : Char} (hne : a ≠ []) (ha : ∀ c ∈ a, c ∉ delim)
    (hd : d ∈ delim) (b : Str) : strtok delim (a ++ d :: b) = some (a, b) := by
  obtain ⟨x, a, rfl⟩ := List.exists_cons_of_ne_nil hne
  have hskip : (x :: a ++ d :: b).dropWhile (· ∈ delim) = x :: a ++ d :: b := by
    rw [List.cons_append, List.dropWhile_cons_of_neg (by simpa using ha x (by simp))]
  have hall : ∀ c ∈ x :: a, (decide (c ∉ delim)) = true := fun c hc => decide_eq_true (ha c hc)
  rw [strtok, hskip, if_neg (by simp), List.takeWhile_append_of_pos hall,
    List.dropWhile_append_of_pos hall]
  simp [hd]

/-- A text without a delimiter is one token. -/
theorem strtok_all {delim a : Str} (hne : a ≠ []) (ha : ∀ c ∈ a, c ∉ delim) :
    strtok delim a = some (a, []) := by
  obtain ⟨x, a, rfl⟩ := List.exists_cons_of_ne_nil hne
  have hskip : (x :: a).dropWhile (· ∈ delim) = x :: a :=
    List.dropWhile_cons_of_neg (by simpa using ha x (by simp))
  have hall : ∀ c ∈ x :: a, (decide (c ∉ delim)) = true := fun c hc => decide_eq_true (ha c hc)
  have htake : (x :: a).takeWhile (· ∉ delim) = x :: a := List.takeWhile_eq_self_iff.mpr hall
  have hdrop : (x :: a).dropWhile (· ∉ delim) = [] := List.dropWhile_eq_nil_iff.mpr hall
  rw [strtok, hskip, if_neg (by simp), htake, hdrop]
  rfl

theorem notMem_delim {d : Char} {s : Str} (h : d ∉ s) : ∀ c ∈ s, c ∉ [d] := fun _ hc hm =>
  h (List.mem_singleton.mp hm ▸ hc)

/-- A token has letters, and what is behind it is shorter than the text. -/
theorem strtok_length {delim s t r : Str} (h : strtok delim s = some (t, r)) :
    0 < t.length ∧ t.length + r.length ≤ s.length := by
  simp only [strtok] at h
  have hskip : (s.dropWhile (· ∈ delim)).length ≤ s.length := List.length_dropWhile_le ..
  cases hs : s.dropWhile (· ∈ delim) with
  | nil =>
      rw [hs, if_pos rfl] at h
      cases h
  | cons x u =>
      rw [hs, if_neg (by simp)] at h
      obtain ⟨rfl, rfl⟩ := Prod.mk.inj (Option.some.inj h)
      have hx : x ∉ delim := by
        have hne : s.dropWhile (· ∈ delim) ≠ [] := by simp [hs]
        have hhead := List.head_dropWhile_not (· ∈ delim) hne
        simpa [hs] using hhead
      have hsplit :=
        congrArg List.length (List.takeWhile_append_dropWhile (p := (· ∉ delim)) (l := x :: u))
      rw [List.length_append] at hsplit
      rw [hs] at hskip
      refine ⟨by simp [hx], ?_⟩
      rw [List.length_drop]
      omega

/-- A round keeps less than the token it was given. -/
theorem cookieRound_length {token : Str} {r : (Str × Str) × Str} (h : cookieRound token = some r) :
    r.2.length < token.length := by
  rw [cookieRound] at h
  split at h
  · cases h
  · obtain ⟨key, hkey, h⟩ := Option.bind_eq_some_iff.mp h
    obtain ⟨field, hfield, h⟩ := Option.bind_eq_some_iff.mp h
    obtain ⟨value, -, h⟩ := Option.bind_eq_some_iff.mp h
    split at h
    · cases h
    · obtain rfl := Option.some.inj h
      have hfirst := strtok_length hkey
      have hsecond := strtok_length hfield
      simp only
      omega

/-- The rounds come to an end: the count of them in `cookieLine` is never used up. -/
theorem cookieLoop_enough {n : Nat} {kept : Str} (h : kept.length < n) :
    cookieLoop (n + 1) kept = cookieLoop n kept := by
  induction n generalizing kept with
  | zero => exact absurd h (Nat.not_lt_zero _)
  | succ n ih =>
      rw [cookieLoop, cookieLoop]
      cases htoken : strtok [' '] kept with
      | none => rfl
      | some token =>
          cases hround : cookieRound token.1 with
          | none => simp [hround]
          | some r =>
              have hshort := cookieRound_length hround
              have hlen := strtok_length (t := token.1) (r := token.2) htoken
              simp [hround, ih (show r.2.length < n by omega)]

/-! ## One pair -/

namespace CookieText

variable {s : Str} (h : CookieText s)

include h in
theorem notMem {c : Char} (hc : c ∈ ['=', ';', ' ']) : c ∉ s := fun hm => (h.2 c hm).1 hc

end CookieText

/-- A pair is one token, if no blank comes with its end. -/
theorem blank_notMem_pair {n v e : Str} (hn : CookieText n) (hv : CookieText v) (he : ' ' ∉ e) :
    ' ' ∉ n ++ '=' :: (v ++ e) := by
  have hns := hn.notMem (c := ' ') (by decide)
  have hvs := hv.notMem (c := ' ') (by decide)
  simp [hns, hvs, he]

/-- The last pair, with the line break behind it. -/
theorem cutValue_last (v : Str) : cutValue (v ++ crlf) = some v := by
  have hlen : (v ++ crlf).length = v.length + 2 := by simp [crlf]
  have hread : (v ++ crlf)[v.length]? = some '\r' := by simp [crlf]
  rw [cutValue, hlen, if_neg (by omega), Nat.add_sub_cancel, hread,
    if_neg (by decide), List.take_left]

/-- Any other pair, with the `;` behind it, loses a letter. -/
theorem cutValue_inner {v : Str} (hv : CookieText v) : cutValue (v ++ [';']) = some v.dropLast := by
  have hpos : 0 < v.length := List.length_pos_iff.mpr hv.1
  have hlen : (v ++ [';']).length = v.length + 1 := by simp
  have hread : (v ++ [';'])[v.length - 1]? ≠ some ';' := by
    rw [List.getElem?_append_left (by omega)]
    exact fun h => hv.notMem (by decide) (List.mem_of_getElem? h)
  rw [cutValue, hlen, if_neg (by omega), show v.length + 1 - 2
    = v.length - 1 by omega, if_neg hread, List.take_append_of_le_length (by omega),
    List.dropLast_eq_take]

/-- What a round makes of a pair with its end attached. -/
theorem cookieRound_pair {n v e value : Str} (hn : CookieText n) (hv : CookieText v)
    (he : '=' ∉ e) (hlen : n.length < 128) (htoken : (n ++ '=' :: (v ++ e)).length < 256)
    (hcut : cutValue (v ++ e) = some value) (hvalue : value.length < 128) :
    cookieRound (n ++ '=' :: (v ++ e)) = some ((n, value), []) := by
  have hname : ∀ c ∈ n, c ∉ ['='] := notMem_delim (hn.notMem (by decide))
  have hfield : ∀ c ∈ v ++ e, c ∉ ['='] := notMem_delim fun hm =>
    (List.mem_append.mp hm).elim (hv.notMem (by decide)) he
  rw [cookieRound, if_neg (Nat.not_le.mpr htoken), strtok_token hn.1 hname (by decide),
    Option.bind_some, strtok_all (by simp [hv.1]) hfield, Option.bind_some, hcut, Option.bind_some,
    if_neg (not_or.mpr ⟨Nat.not_le.mpr hlen, Nat.not_le.mpr hvalue⟩)]

/-! ## The line -/

/-- A round that leaves nothing behind is the last one. -/
theorem cookieLoop_once (n : Nat) {kept token rest : Str} {p : Str × Str}
    (htoken : strtok [' '] kept = some (token, rest)) (hround : cookieRound token = some (p, [])) :
    cookieLoop (n + 2) kept = some [p] := by
  rw [cookieLoop, htoken]
  simp only [hround, Option.bind_some]
  rfl

namespace CookieHeader

variable (h : CookieHeader)

/-- One round decides about the whole line. -/
theorem cookieLine_once {token rest : Str} {p : Str × Str}
    (htoken : strtok [' '] (cookiePairs h.pairs ++ crlf) = some (token, rest))
    (hround : cookieRound token = some (p, [])) : cookieLine h.line = some [p] := by
  have hdrop : h.line.drop 8 = cookiePairs h.pairs ++ crlf :=
    List.drop_left' (show cookieField.length = 8 by decide)
  have hlen : h.line.length + 1 = (cookiePairs h.pairs ++ crlf).length + 7 + 2 := by
    rw [line, List.length_append, show cookieField.length = 8 by decide]
    omega
  rw [cookieLine, hdrop, if_neg (Nat.not_le.mpr h.fits), hlen, cookieLoop_once _ htoken hround]

/-- A single pair is read as it was written. -/
theorem line_single {n v : Str} (hp : h.pairs = [(n, v)]) : cookieLine h.line = some [(n, v)] := by
  have hmem : (n, v) ∈ h.pairs := by simp [hp]
  obtain ⟨hn, hv⟩ := h.legal _ hmem
  obtain ⟨hnlen, hvlen, hlen⟩ := h.short _ hmem
  have htext : cookiePairs h.pairs ++ crlf = n ++ '=' :: (v ++ crlf) := by
    rw [hp, cookiePairs]
    simp [List.intercalate]
  have htoken := notMem_delim (blank_notMem_pair hn hv (e := crlf) (by decide))
  refine h.cookieLine_once (by rw [htext]; exact strtok_all (by simp) htoken) ?_
  refine cookieRound_pair hn hv (by decide) hnlen ?_ (cutValue_last v) hvlen
  simp only [List.length_append, List.length_cons, crlf, List.length_nil] at hlen ⊢
  omega

/-- Of more than one pair the first is read, without its last letter. -/
theorem line_several {n v : Str} {p : Str × Str} {ps : List (Str × Str)}
    (hp : h.pairs = (n, v) :: p :: ps) : cookieLine h.line = some [(n, v.dropLast)] := by
  have hmem : (n, v) ∈ h.pairs := by simp [hp]
  obtain ⟨hn, hv⟩ := h.legal _ hmem
  obtain ⟨hnlen, hvlen, hlen⟩ := h.short _ hmem
  have htext : cookiePairs h.pairs ++ crlf
      = n ++ '=' :: (v ++ [';']) ++ ' ' :: (cookiePairs (p :: ps) ++ crlf) := by
    rw [hp, cookiePairs, cookiePairs]
    simp [List.intercalate]
  have htoken := notMem_delim (blank_notMem_pair hn hv (e := [';']) (by decide))
  refine h.cookieLine_once (by rw [htext]; exact strtok_token (by simp) htoken (by decide) _) ?_
  refine cookieRound_pair hn hv (by decide) hnlen ?_ (cutValue_inner hv) ?_
  · simp only [List.length_append, List.length_cons, List.length_nil] at hlen ⊢
    omega
  · rw [List.length_dropLast]
    exact Nat.lt_of_le_of_lt (Nat.sub_le ..) hvlen

end CookieHeader

/-- **The cookies are parsed exactly if there is one pair.** -/
theorem cookies_iff (h : CookieHeader) :
    Holds h.pairs (cookieLine h.line) ↔ h.pairs.length = 1 := by
  match hp : h.pairs with
  | [] => exact absurd hp h.ne
  | [(n, v)] => exact ⟨fun _ => rfl, fun _ => ⟨_, h.line_single hp, fun _ => rfl⟩⟩
  | (n, v) :: (n', v') :: ps =>
      refine ⟨fun ⟨as, has, hmap⟩ => ?_, fun hlen => by simp at hlen⟩
      obtain rfl := Option.some.inj ((h.line_several hp).symm.trans has)
      -- the second name is not in the map
      have hdistinct := h.distinct
      rw [hp] at hdistinct
      have hne : n' ≠ n := fun he => by simp [he] at hdistinct
      have hsecond := hmap n'
      simp [assigned, List.lookup_cons, beq_false_of_ne hne] at hsecond

/-- A session's name and another cookie. -/
def twoCookies : CookieHeader where
  pairs := [("username".toList, "bob".toList), ("theme".toList, "dark".toList)]
  ne := by decide
  distinct := by decide
  legal := by simp [CookieText]
  short := by decide
  fits := by decide

theorem twoCookies_misread : ¬ Holds twoCookies.pairs (cookieLine twoCookies.line) := by
  rintro ⟨as, has, hmap⟩
  obtain rfl := Option.some.inj ((twoCookies.line_several rfl).symm.trans has)
  exact absurd (hmap "username".toList) (by decide)

end PennCloud

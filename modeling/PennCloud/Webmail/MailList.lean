import PennCloud.Lib.Lines
import PennCloud.Text

/-!
# Mail hashes and the list of a mailbox

Every mail is stored under a hash of its text, and the cell `mail/inbox/list` (or
`mail/outbox/list`) of a user holds the hashes of the mailbox, one a line, the
latest on top, above the line `list`. Three functions read that text:
`handle_data` erases a hash by substring search and puts it on top, `update_hash`
filters the lines, and `recvfrom_backend` takes the hashes off again. On a list
text each does what it should, because a hash is longer than the mark and can
only be found where a line holds it.
-/

namespace PennCloud

open Str

def hexDigits : Str := "0123456789abcdef".toList

/-- A mail hash: 17 lower-case hex characters. -/
structure Hash where
  text : Str
  length : text.length = 17
  hex : ∀ c ∈ text, c ∈ hexDigits

instance : DecidableEq Hash := fun h g =>
  decidable_of_iff (h.text = g.text) ⟨fun he => by cases h; cases g; cases he; rfl,
    fun he => he ▸ rfl⟩

/-! ## `hash_MD5` -/

/-- A digit. -/
def hexDigit (n : Nat) : Char := hexDigits.getD n '0'

theorem hexDigit_mem : ∀ n : Fin 16, hexDigit n ∈ hexDigits := by decide

/-- `sprintf("%02x")` of a byte. -/
def hex02 (b : Fin 256) : Str := [hexDigit (b / 16), hexDigit (b % 16)]

/-- The loop of `hash_MD5`: each byte is printed one place behind the one before it. -/
def uid (digest : Nat → Fin 256) : Nat → Str
  | 0 => []
  | i + 1 => (uid digest i).take i ++ hex02 (digest i)

theorem length_uid (digest : Nat → Fin 256) (i : Nat) : (uid digest (i + 1)).length = i + 2 := by
  induction i with
  | zero => rfl
  | succ i ih =>
      rw [uid, List.length_append, List.length_take, ih]
      simp only [hex02, List.length_cons, List.length_nil]
      omega

theorem hex_uid (digest : Nat → Fin 256) (i : Nat) : ∀ c ∈ uid digest i, c ∈ hexDigits := by
  induction i with
  | zero => exact fun c hc => absurd hc (List.not_mem_nil)
  | succ i ih =>
      intro c hc
      rcases List.mem_append.mp hc with hc | hc
      · exact ih c (List.mem_of_mem_take hc)
      · rw [hex02, List.mem_cons, List.mem_singleton] at hc
        rcases hc with rfl | rfl
        · exact hexDigit_mem ⟨_, Nat.div_lt_of_lt_mul (digest i).isLt⟩
        · exact hexDigit_mem ⟨_, Nat.mod_lt _ (by decide)⟩

/-- `hash_MD5`, the digest itself being the library's. -/
def hashMD5 (md5 : Str → Nat → Fin 256) (data : Str) : Hash where
  text := uid (md5 (cstr data)) 16
  length := length_uid _ 15
  hex := hex_uid _ 16

/-! ## The list -/

/-- `"list\r\n"`. -/
def listMark : Str := ['l', 'i', 's', 't', '\r', '\n']

/-- Hashes, one a line. -/
def hashLines (hs : List Hash) : Str := hs.flatMap fun h => h.text ++ crlf

/-- The text of a mailbox list. -/
def listText (hs : List Hash) : Str := hashLines hs ++ listMark

/-- `s.erase(pos, n)`; a negative `n` reaches to the end. -/
def erase (s : Str) (pos n : Int) : Str :=
  if n < 0 then s.take pos.toNat else s.take pos.toNat ++ s.drop (pos + n).toNat

/-- `handle_data`: the hash on top of the list, and no longer where it was before. -/
def prependHash (hash value : Str) : Str :=
  let f1 := value.find hash
  let value := if f1 ≠ npos then erase value f1 (findFrom value crlf (f1 + 1) - f1 + 2) else value
  hash ++ crlf ++ value

/-- `update_hash`. -/
def updateHash (oldHash : Str) (deleteHash : List Str) : Str :=
  (((Lib.lines '\n' oldHash).map List.dropLast).filter (· ∉ deleteHash)).flatMap (· ++ crlf)

/-- The hashes `recvfrom_backend` finds in a list: every line that does not begin with `list`. -/
def recvHashes (response : Str) : List Str :=
  ((Lib.lines '\n' response).filter fun line => line.take 4 ≠ listMark.take 4).map List.dropLast

namespace Hash

variable {h g : Hash}

theorem ext_text (he : h.text = g.text) : h = g := by
  cases h
  cases g
  cases he
  rfl

theorem notMem {c : Char} (h : Hash) (hc : c ∉ hexDigits) : c ∉ h.text := fun hm => hc (h.hex c hm)

theorem cr_notMem (h : Hash) : '\r' ∉ h.text := h.notMem (by decide)

theorem nl_notMem (h : Hash) : '\n' ∉ h.text := h.notMem (by decide)

theorem text_ne_nil (h : Hash) : h.text ≠ [] := fun he => by
  have hlen := h.length
  rw [he] at hlen
  exact absurd hlen (by decide)

/-- A hash is found in a hash only if it is the same. -/
theorem eq_of_infix (hin : h.text <:+: g.text) : h = g :=
  ext_text (hin.eq_of_length (h.length.trans g.length.symm))

theorem not_infix_mark (h : Hash) : ¬ h.text <:+: listMark := fun hin => by
  have hle := hin.length_le
  rw [h.length] at hle
  exact absurd hle (by decide)

end Hash

theorem hashLines_cons (h : Hash) (hs : List Hash) :
    hashLines (h :: hs) = h.text ++ '\r' :: '\n' :: hashLines hs := by
  simp [hashLines, crlf]

theorem listText_cons (h : Hash) (hs : List Hash) :
    listText (h :: hs) = h.text ++ '\r' :: '\n' :: listText hs := by
  simp [listText, hashLines_cons]

theorem listText_append (hs gs : List Hash) :
    listText (hs ++ gs) = hashLines hs ++ listText gs := by
  simp [listText, hashLines]

/-- Lines of other hashes only shift the place where a hash is found. -/
theorem firstIdx_hashLines {h : Hash} : ∀ {hs : List Hash} (rest : Str), h ∉ hs →
    Lib.firstIdx h.text (hashLines hs ++ rest)
      = (Lib.firstIdx h.text rest).map ((hashLines hs).length + ·)
  | [], rest, _ => by simp [hashLines]
  | g :: hs, rest, hmem => by
      rw [List.mem_cons, not_or] at hmem
      rw [hashLines_cons, List.append_assoc, List.cons_append, List.cons_append,
        Lib.firstIdx_mid h.cr_notMem h.text_ne_nil _ fun hin => hmem.1 (Hash.eq_of_infix hin),
        ← List.nil_append ('\n' :: _), Lib.firstIdx_mid h.nl_notMem h.text_ne_nil _
          fun hin => h.text_ne_nil (List.infix_nil.mp hin),
        firstIdx_hashLines rest hmem.2, Option.map_map, Option.map_map]
      congr 1
      funext n
      simp only [Function.comp_apply, List.length_append, List.length_cons, List.length_nil]
      omega

theorem find_hash_none {h : Hash} {hs : List Hash} (hmem : h ∉ hs) :
    (listText hs).find h.text = npos := by
  refine find_of_none ?_
  rw [listText, firstIdx_hashLines _ hmem, Lib.firstIdx_eq_none.mpr h.not_infix_mark]
  rfl

theorem find_hash {h : Hash} {a : List Hash} (b : List Hash) (hmem : h ∉ a) :
    (listText (a ++ h :: b)).find h.text = (hashLines a).length := by
  have hzero : Lib.firstIdx h.text (listText (h :: b)) = some 0 := by
    rw [listText_cons]
    exact Lib.firstIdx_zero (List.prefix_append _ _)
  refine find_of_firstIdx ?_
  rw [listText_append, firstIdx_hashLines _ hmem, hzero]
  rfl

/-- The line break looked for is the one behind the hash. -/
theorem findFrom_hash (h : Hash) (a b : List Hash) :
    findFrom (listText (a ++ h :: b)) crlf ((hashLines a).length + 1)
      = (hashLines a).length + 17 := by
  obtain ⟨c, t, hct⟩ := List.exists_cons_of_ne_nil h.text_ne_nil
  have hlen := h.length
  have hcr := h.cr_notMem
  rw [hct, List.length_cons] at hlen
  rw [hct, List.mem_cons, not_or] at hcr
  have hno : ¬ crlf <:+: t := fun ⟨u, v, huv⟩ => hcr.2 (huv ▸ by simp [crlf])
  have hdrop : (listText (a ++ h :: b)).drop ((hashLines a).length + 1) = t ++ crlf
    ++ listText b := by
    rw [listText_append, listText_cons, hct, List.drop_length_add_append]
    simp [crlf]
  have hpos : (((hashLines a).length : Int) + 1).toNat = (hashLines a).length + 1 := by omega
  have hfound : Lib.firstIdx crlf (t ++ crlf ++ listText b) = some t.length :=
    Lib.firstIdx_pair (by decide) _ hno
  simp only [findFrom, hpos, hdrop, hfound]
  omega

/-- **`handle_data` puts the hash on top and keeps the others.** -/
theorem prependHash_listText (h : Hash) (hs : List Hash) :
    prependHash h.text (listText hs) = listText (h :: hs.erase h) := by
  have htop : ∀ gs, h.text ++ crlf ++ listText gs = listText (h :: gs) := fun gs => by
    rw [listText_cons, List.append_assoc]
    rfl
  by_cases hmem : h ∈ hs
  · obtain ⟨a, b, hna, rfl, herase⟩ := List.exists_erase_eq hmem
    rw [prependHash, find_hash b hna, herase]
    have hfound : ((hashLines a).length : Int) ≠ npos := by
      rw [npos]
      omega
    rw [if_pos hfound, findFrom_hash]
    have hcut : erase (listText (a ++ h :: b)) (hashLines a).length
        ((hashLines a).length + 17 - (hashLines a).length + 2) = listText (a ++ b) := by
      have hn : ¬ ((hashLines a).length + 17 - (hashLines a).length + 2 : Int) < 0 := by omega
      have hend : ((hashLines a).length + ((hashLines a).length + 17 - (hashLines a).length + 2)
          : Int).toNat = (hashLines a).length + 19 := by omega
      have hline : (h.text ++ crlf).length = 19 := by simp [h.length, crlf]
      have hrest : listText (h :: b) = h.text ++ crlf ++ listText b := (htop b).symm
      rw [erase, if_neg hn, hend, Int.toNat_natCast, listText_append, listText_append,
        List.take_left, List.drop_length_add_append, hrest, ← hline, List.drop_left]
    rw [hcut]
    exact htop (a ++ b)
  · rw [prependHash, find_hash_none hmem, if_neg (not_not_intro rfl), List.erase_of_not_mem hmem]
    exact htop hs

/-! ## The lines of a list -/

theorem lines_listText (hs : List Hash) : Lib.lines '\n' (listText hs)
    = hs.map (fun h => h.text ++ ['\r']) ++ [['l', 'i', 's', 't', '\r']] := by
  induction hs with
  | nil => rfl
  | cons h hs ih =>
      have hline : '\n' ∉ h.text ++ ['\r'] := by
        rw [List.mem_append, not_or]
        exact ⟨h.nl_notMem, by decide⟩
      rw [listText_cons, List.append_cons, Lib.lines_line _ hline, ih]
      rfl

/-- **`update_hash` takes the given hashes off.** -/
theorem updateHash_listText (hs del : List Hash) :
    updateHash (listText hs) (del.map Hash.text) = listText (hs.filter (· ∉ del)) := by
  have hmark : ['l', 'i', 's', 't'] ∉ del.map Hash.text := fun hmem => by
    obtain ⟨h, -, hh⟩ := List.mem_map.mp hmem
    have hlen := h.length
    rw [hh] at hlen
    exact absurd hlen (by decide)
  have hkept : ∀ h : Hash, h.text ∉ del.map Hash.text ↔ h ∉ del := fun h =>
    not_congr ⟨fun hm => by
      obtain ⟨g, hg, he⟩ := List.mem_map.mp hm
      exact Hash.ext_text he ▸ hg, List.mem_map_of_mem⟩
  have hlines : (Lib.lines '\n' (listText hs)).map List.dropLast
      = hs.map Hash.text ++ [['l', 'i', 's', 't']] := by
    rw [lines_listText, List.map_append, List.map_map]
    congr 1
    exact List.map_congr_left fun h _ => List.dropLast_concat
  rw [updateHash, hlines, List.filter_append, List.filter_map, List.flatMap_append, listText,
    hashLines, List.flatMap_map]
  congr 1
  · congr 1
    exact List.filter_congr fun h _ => decide_eq_decide.mpr (hkept h)
  · rw [List.filter_cons_of_pos (by simpa using hmark)]
    rfl

/-- What `recvfrom_backend` reads off a list are its hashes. -/
theorem recvHashes_listText (hs : List Hash) : recvHashes (listText hs) = hs.map Hash.text := by
  have hline : ∀ h : Hash, (h.text ++ ['\r']).take 4 ≠ listMark.take 4 := by
    intro h htake
    have hl : 'l' ∈ h.text := by
      have hmem : 'l' ∈ (h.text ++ ['\r']).take 4 := htake ▸ by decide
      rcases List.mem_append.mp (List.mem_of_mem_take hmem) with hm | hm
      · exact hm
      · exact absurd hm (by decide)
    exact h.notMem (by decide) hl
  rw [recvHashes, lines_listText, List.filter_append, List.filter_eq_self.mpr]
  · rw [List.filter_cons_of_neg (by decide), List.filter_nil, List.append_nil, List.map_map]
    exact List.map_congr_left fun h _ => List.dropLast_concat
  · intro l hl
    obtain ⟨h, -, rfl⟩ := List.mem_map.mp hl
    simpa using hline h

theorem listText_inj {hs gs : List Hash} (h : listText hs = listText gs) : hs = gs := by
  have hmap := congrArg recvHashes h
  rw [recvHashes_listText, recvHashes_listText] at hmap
  exact List.map_injective_iff.mpr (fun _ _ => Hash.ext_text) hmap

end PennCloud

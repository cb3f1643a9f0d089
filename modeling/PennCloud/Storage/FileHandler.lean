import PennCloud.Storage.GetReply
import PennCloud.Storage.Tree
import PennCloud.Storage.Uploads
import Mathlib.Algebra.GroupWithZero.Nat

/-!
# File contents as hexadecimal text

The cell of a file holds its bytes as text, two hexadecimal digits for each.
`convert_str_to_binary` goes through such a text two characters at a time, up to
`str.length() - 1`. The subtraction is unsigned: of the empty text it gives the
largest number there is, and the loop runs off the end of it. The loop's counter
is an `int`.

An indeterminate value that the source reads is an argument of the model.
-/

namespace PennCloud

open Str

/-- The bytes of a `vector<char>`, as a text. -/
def asText (bytes : List UInt8) : Str := bytes.map fun b => Char.ofNat b.toNat

/-- How `convert_str_to_binary` fails. -/
inductive HexFault
  /-- `substr` throws `out_of_range`. -/
  | outOfRange
  /-- The counter does not fit an `int`. -/
  | overflow
  deriving DecidableEq, Repr

/-- The value of the hexadecimal digits at the front. -/
def leadingHex (s : Str) : Nat :=
  ((s.map hexValue).takeWhile Option.isSome).foldl (fun n v => 16 * n + v.getD 0) 0

/-- `temp >> hex >> c` on two characters at most; `none` leaves `c` as it is. -/
def hexIn (s : Str) : Option Nat :=
  match s.dropWhile isspace with
  | [] => none
  | '-' :: t => some ((2 ^ 32 - leadingHex t) % 2 ^ 32)
  | '+' :: t => some (leadingHex t)
  | t => some (leadingHex t)

/-- The loop of `convert_str_to_binary`; `garbage i` is what `c` holds before it is read. -/
def strToBinaryLoop (garbage : Nat → Nat) (str : Str) :
    Nat → Nat → Str → Option (Except HexFault Str)
  | 0, _, _ => none
  | fuel + 1, i, result =>
    if i < (str.length + 2 ^ 64 - 1) % 2 ^ 64 then
      if str.length < i then some (.error .outOfRange)
      else if 2 ^ 31 ≤ i + 2 then some (.error .overflow)
      else strToBinaryLoop garbage str fuel (i + 2)
        (result ++ [Char.ofNat ((hexIn (str.substr i 2)).getD (garbage i) % 256)])
    else some (.ok result)

/-- `convert_str_to_binary`. -/
def convertStrToBinary (garbage : Nat → Nat) (str : Str) : Option (Except HexFault Str) :=
  strToBinaryLoop garbage str (str.length + 2) 0 []

/-- `download_file`: the content, or nothing where the file has been deleted. -/
def Storage.downloadFile (row : Str) (garbage : Nat → Nat) (s : Storage) (filename : Str) :
    Option (Storage × Option (Except HexFault Str)) :=
  (s.filesInPath.lookup filename).bind fun f => (s.dir.get row f.id).bind fun r =>
    if r.1 = nullReply then some ({ s with dir := r.2 }, none)
    else (convertStrToBinary garbage r.1).map fun c => ({ s with dir := r.2 }, some c)

/-! ## The loop -/

variable {garbage : Nat → Nat} {str result : Str}

/-- **The loop comes to an end**, of one kind or the other. -/
theorem strToBinaryLoop_isSome : ∀ (fuel i : Nat) (result : Str), str.length + 2 ≤ fuel + i →
    i ≤ str.length + 1 → (strToBinaryLoop garbage str fuel i result).isSome = true
  | 0, i, result, hfuel, hi => by omega
  | fuel + 1, i, result, hfuel, hi => by
      rw [strToBinaryLoop]
      split
      · split
        · rfl
        · split
          · rfl
          · by_cases hlast : i = str.length
            · -- one round more, and `substr` throws
              cases fuel with
              | zero => omega
              | succ fuel =>
                  rw [strToBinaryLoop]
                  split
                  · rw [if_pos (by omega)]
                    rfl
                  · rfl
            · exact strToBinaryLoop_isSome fuel (i + 2) _ (by omega) (by omega)
      · rfl

/-- Where the counter has not overflowed, the result is short. -/
theorem strToBinaryLoop_short (fuel : Nat) {content : Str} {i : Nat} (hi : 2 * result.length = i)
    (hlt : i < 2 ^ 31) (h : strToBinaryLoop garbage str fuel i result = some (.ok content)) :
    content.length < 2 ^ 30 := by
  induction fuel generalizing i result with
  | zero => cases h
  | succ fuel ih =>
      rw [strToBinaryLoop] at h
      split at h
      · split at h
        · cases h
        · split at h
          · cases h
          · refine ih ?_ (by omega) h
            rw [List.length_append, List.length_singleton]
            omega
      · obtain rfl := Except.ok.inj (Option.some.inj h)
        omega

/-! ## Two digits for a byte -/

/-- Two digits are read back as the number they were written for. -/
theorem hexIn_digits : ∀ a < 16, ∀ b < 16,
    hexIn [Nat.digitChar a, Nat.digitChar b] = some (16 * a + b) := by decide

/-- A byte is its high half times sixteen plus its low half. -/
theorem hexIn_byte (b : UInt8) :
    hexIn [Nat.digitChar (b.toNat % 256 / 16), Nat.digitChar (b.toNat % 16)] = some b.toNat := by
  have hb : b.toNat < 256 := b.toNat_lt
  rw [hexIn_digits _ (by omega) _ (by omega)]
  congr 1
  omega

theorem toNat_byteChar (b : UInt8) : (Char.ofNat b.toNat).toNat = b.toNat := by
  have hvalid : Nat.isValidChar b.toNat := Or.inl (Nat.lt_of_lt_of_le b.toNat_lt (by decide))
  rw [Char.ofNat, dif_pos hvalid]
  rfl

/-- The text of the bytes. -/
def hexText (bytes : List UInt8) : Str :=
  bytes.flatMap fun b => [Nat.digitChar (b.toNat % 256 / 16), Nat.digitChar (b.toNat % 16)]

theorem convertBinaryToStr_asText (bytes : List UInt8) :
    convertBinaryToStr (asText bytes) = hexText bytes := by
  rw [convertBinaryToStr, asText, hexText, List.flatMap_map]
  simp only [toNat_byteChar]

theorem length_hexText (bytes : List UInt8) : (hexText bytes).length = 2 * bytes.length := by
  induction bytes with
  | nil => rfl
  | cons b bytes ih =>
      rw [hexText, List.flatMap_cons, List.length_append, ← hexText, ih, List.length_cons]
      simp only [List.length_cons, List.length_nil]
      omega

/-- The loop goes on from where the bytes `front` have been read. -/
theorem strToBinaryLoop_hexText (front rest : List UInt8) (fuel : Nat)
    (hpos : 0 < front.length + rest.length) (hlen : front.length + rest.length < 2 ^ 30)
    (hfuel : rest.length < fuel) :
    strToBinaryLoop garbage (hexText (front ++ rest)) fuel (2 * front.length) (asText front)
      = some (.ok (asText (front ++ rest))) := by
  have hsize : ((hexText (front ++ rest)).length + 2 ^ 64 - 1) % 2 ^ 64
      = 2 * (front.length + rest.length) - 1 := by
    rw [length_hexText, List.length_append]
    omega
  induction rest generalizing front fuel with
  | nil =>
      obtain ⟨n, rfl⟩ := Nat.exists_eq_succ_of_ne_zero (Nat.ne_of_gt hfuel)
      simp only [List.length_nil, Nat.add_zero] at hsize hpos
      rw [strToBinaryLoop, hsize, if_neg (by omega), List.append_nil]
  | cons b rest ih =>
      obtain ⟨n, rfl⟩ := Nat.exists_eq_succ_of_ne_zero (Nat.ne_of_gt (Nat.zero_lt_of_lt hfuel))
      rw [List.length_cons] at hsize hpos hlen hfuel
      have hcut : substr (hexText (front ++ b :: rest)) (2 * front.length : Nat) 2
          = [Nat.digitChar (b.toNat % 256 / 16), Nat.digitChar (b.toNat % 16)] := by
        have htext : hexText (front ++ b :: rest) = hexText front
            ++ [Nat.digitChar (b.toNat % 256 / 16), Nat.digitChar (b.toNat % 16)]
              ++ hexText rest := by
          simp [hexText]
        rw [htext]
        exact substr_middle _ _ _ (by rw [length_hexText]) rfl
      have hin : ¬ (hexText (front ++ b :: rest)).length < 2 * front.length := by
        rw [length_hexText, List.length_append]
        omega
      have hbyte : b.toNat % 256 = b.toNat := Nat.mod_eq_of_lt b.toNat_lt
      rw [strToBinaryLoop, hsize, if_pos (by omega), if_neg hin, if_neg (by omega),
        hcut, hexIn_byte, Option.getD_some, hbyte]
      have hfront : asText front ++ [Char.ofNat b.toNat] = asText (front ++ [b]) := by simp [asText]
      have hcat : front ++ b :: rest = front ++ [b] ++ rest := by simp
      have hnext : 2 * front.length + 2 = 2 * (front ++ [b]).length := by
        rw [List.length_append, List.length_singleton]
        omega
      rw [hfront, hcat, hnext]
      have hsum : (front ++ [b]).length + rest.length = front.length + (rest.length + 1) := by
        rw [List.length_append, List.length_singleton]
        omega
      refine ih (front ++ [b]) n (by omega) (by omega) (by omega) ?_
      rw [hsum, ← hcat]
      exact hsize

/-- **Bytes are read back**, if there are any and the counter can reach their end. -/
theorem convertStrToBinary_hexText {bytes : List UInt8} (hne : bytes ≠ [])
    (hlen : bytes.length < 2 ^ 30) :
    convertStrToBinary garbage (hexText bytes) = some (.ok (asText bytes)) := by
  have hpos := List.length_pos_iff.mpr hne
  refine strToBinaryLoop_hexText [] bytes _ ?_ ?_ ?_
  · rw [List.length_nil]
    omega
  · rw [List.length_nil]
    omega
  · rw [length_hexText]
    omega

/-! ## Up and down again -/

variable {bytes : List UInt8}

theorem notMem_hexText {c : Char} (hc : ∀ n < 16, Nat.digitChar n ≠ c) : c ∉ hexText bytes := by
  intro hmem
  obtain ⟨b, -, hb⟩ := List.mem_flatMap.mp hmem
  have hlt : b.toNat < 256 := b.toNat_lt
  rcases List.mem_pair.mp hb with rfl | rfl
  · exact hc _ (by omega) rfl
  · exact hc _ (by omega) rfl

/-- A file that has the text of the bytes for its content is downloaded as them. -/
theorem downloadFile_hexText {row filename : Str} {s : Storage} {f : FileInfo} (hne : bytes ≠ [])
    (hlen : bytes.length < 2 ^ 30) (hf : s.filesInPath.lookup filename = some f)
    (hcell : s.dir.cell row f.id = some (hexText bytes ++ crlf)) :
    s.downloadFile row garbage filename = some (s, some (.ok (asText bytes))) := by
  have hminus : '-' ∉ hexText bytes := notMem_hexText (by decide)
  have hdown : ¬ shuttingDown <:+: hexText bytes := fun hin =>
    hminus (hin.subset (show '-' ∈ shuttingDown by decide))
  have hcrash : hexText bytes ≠ serverCrash := fun he =>
    notMem_hexText (c := 'S') (by decide) (he ▸ show 'S' ∈ serverCrash by decide)
  have hnull : hexText bytes ≠ nullReply := fun he =>
    hminus (he ▸ show '-' ∈ nullReply by decide)
  have hget : s.dir.get row f.id = some (hexText bytes, s.dir) :=
    Dir.get_data hcell (notMem_hexText (by decide)) hdown hcrash
  rw [Storage.downloadFile, hf, Option.bind_some, hget, Option.bind_some, if_neg hnull,
    convertStrToBinary_hexText hne hlen]
  rfl

/-- The bytes come back out of their text, and out of a file that they have been uploaded to. -/
structure RoundTrips (bytes : List UInt8) : Prop where
  text : ∀ garbage, convertStrToBinary garbage (convertBinaryToStr (asText bytes))
    = some (.ok (asText bytes))
  /-- Whoever has the id of the uploaded file gets them. -/
  download : ∀ garbage row fuel (s t v : Storage) name now created filename f,
    s.uploadFile row fuel name (asText bytes) now created = some (t, true) → v.dir = t.dir →
    v.filesInPath.lookup filename = some f → f.id = now.id →
    v.downloadFile row garbage filename = some (v, some (.ok (asText bytes)))

/-- An upload that has returned true has put the text of the bytes. -/
theorem uploadFile_cell {row name : Str} {fuel : Nat} {s t : Storage} {now created : Clock}
    (h : s.uploadFile row fuel name (asText bytes) now created = some (t, true)) :
    t.dir.cell row now.id = some (hexText bytes ++ crlf) := by
  obtain ⟨folder, -, h⟩ := Option.bind_eq_some_iff.mp h
  obtain ⟨⟨d, q⟩, hfinish, he⟩ := Option.map_eq_some_iff.mp h
  obtain ⟨rfl, hresult⟩ := Prod.mk.inj he
  have hcell := finish_content (Or.inl (.start (u := ⟨folder.id,
      ⟨now.id, name, true, created.time, contentSize (asText bytes).length⟩,
      convertBinaryToStr (asText bytes)⟩))) (fun he => by cases he) hfinish hresult
  rwa [convertBinaryToStr_asText] at hcell

/-- The loop over the empty text runs off its end. -/
theorem convertStrToBinary_nil : convertStrToBinary garbage [] = some (.error .outOfRange) := by
  rw [convertStrToBinary, List.length_nil, strToBinaryLoop, if_pos (by decide), if_neg (by decide),
    if_neg (by decide), strToBinaryLoop, if_pos (by decide), if_pos (by decide)]

/-- What is read back has been counted two by two. -/
theorem convertStrToBinary_short {content : Str}
    (h : convertStrToBinary garbage str = some (.ok content)) : content.length < 2 ^ 30 := by
  rw [convertStrToBinary] at h
  exact strToBinaryLoop_short (str.length + 2) (i := 0) rfl (by decide) h

/--
**Contents come back exactly as they were** if there is a byte in them, and fewer
than the counter of `convert_str_to_binary` can count two by two.
-/
theorem roundTrips_iff (bytes : List UInt8) :
    RoundTrips bytes ↔ bytes ≠ [] ∧ bytes.length < 2 ^ 30 := by
  constructor
  · intro h
    have htext := h.text fun _ => 0
    rw [convertBinaryToStr_asText] at htext
    constructor
    · rintro rfl
      exact absurd (convertStrToBinary_nil.symm.trans htext) (fun he => by cases he)
    · have hshort := convertStrToBinary_short htext
      rwa [asText, List.length_map] at hshort
  · intro h
    refine ⟨fun garbage => ?_, ?_⟩
    · rw [convertBinaryToStr_asText]
      exact convertStrToBinary_hexText h.1 h.2
    · intro garbage row fuel s t v name now created filename f hup hv hf hid
      have hcell : v.dir.cell row f.id = some (hexText bytes ++ crlf) := by
        rw [hv, hid]
        exact uploadFile_cell hup
      exact downloadFile_hexText h.1 h.2 hf hcell

/-- The empty content throws. -/
theorem emptyContent_throws :
    convertStrToBinary (fun _ => 0) (convertBinaryToStr (asText [])) = some (.error .outOfRange) ∧
      ¬ RoundTrips [] :=
  ⟨rfl, fun h => absurd (convertStrToBinary_nil.symm.trans (h.text fun _ => 0))
    (fun he => by cases he)⟩

end PennCloud

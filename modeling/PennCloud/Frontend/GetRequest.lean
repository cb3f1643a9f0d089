import PennCloud.Frontend.RequestReader
import PennCloud.Frontend.Sessions

/-!
# A request without a body

The reader is done with a GET request at the blank line of its header, so there is no
body for it to misread: however the bytes arrive, the request is the one that was
sent if its header fits the arrays. What has come behind the blank line is dropped
with the buffer.

A browser that has been given a session's cookie sends it back in a line of its own,
and `is_logged_in` looks it up.
-/

namespace PennCloud

open Str Lib

/-- A GET request, and what the client sends behind it. -/
structure GetRequest where
  method : Str
  path : Str
  version : Str
  headers : List Str
  more : Str := []
  word : ∀ w ∈ [method, path, version], w ≠ [] ∧ ∀ c ∈ w, c ∉ [' ', '\r', '\n', '\x00']
  get : strcasecmp method "get".toList = true
  lines : ∀ h ∈ headers, h ≠ [] ∧ ¬ crlf <:+: h

namespace GetRequest

variable (q : GetRequest)

def requestLine : Str := q.method ++ ' ' :: (q.path ++ ' ' :: q.version)

def bytes : Str := q.requestLine ++ crlf ++ (headerText q.headers ++ q.more)

/-- The request object is the one the request was for. -/
def Received (reads : List Str) : Prop :=
  ∃ r, HttpReader.Finishes {} reads r ∧ r.method = q.method ∧ r.path = q.path ∧ r.message = []
    ∧ headerCookies q.headers = some r.cookies

/-- The lines fit the copies that are made of them. -/
def LinesFit : Prop := ∀ l ∈ q.requestLine :: q.headers, (cstr (l ++ crlf)).length < 4000000

/-- The browser holds the cookie of a session of `u`, and no other. -/
def Presents (u : Str) : Prop :=
  ∃ before after, q.headers = before
    ++ (cookieField ++ cookiePairs [("username".toList, u)]) :: after ∧
    ∀ l ∈ before ++ after, isCookie (cstr (l ++ crlf)) = false

end GetRequest

/-- The request as `response` has it; a `%` at the end of the path is no path. -/
def HttpReader.request (r : HttpReader) : Option HttpRequest :=
  (parsePath r.path).map fun path =>
    { method := r.method, path := path, message := r.message, cookies := r.cookies.reverse }

namespace HttpReader

/-! ## The lines -/

/-- Three words are the request line. -/
theorem requestLine_three {method path version : Str} (s : HttpReader) (reads : List Str)
    (h : ∀ w ∈ [method, path, version], w ≠ [] ∧ ∀ c ∈ w, c ∉ [' ', '\r', '\n', '\x00']) :
    s.requestLine (method ++ ' ' :: (path ++ ' ' :: version) ++ crlf) reads = .again { s with
      first := false
      method := method
      path := path
      version := (version ++ crlf).dropLast } reads := by
  have hm := h method (by simp)
  have hp := h path (by simp)
  have hv := h version (by simp)
  have htext : method ++ ' ' :: (path ++ ' ' :: version) ++ crlf
      = method ++ ' ' :: (path ++ ' ' :: (version ++ crlf)) := by simp
  have hfirst : strtok [' ', '\r'] (method ++ ' ' :: (path ++ ' ' :: (version ++ crlf)))
      = some (method, path ++ ' ' :: (version ++ crlf)) := by
    refine strtok_token hm.1 (fun c hc hd => hm.2 c hc ?_) (by decide) _
    simp only [List.mem_cons, List.not_mem_nil, or_false] at hd ⊢
    exact hd.elim Or.inl fun h => Or.inr (Or.inl h)
  have hsecond : strtok [' '] (path ++ ' ' :: (version ++ crlf)) = some (path, version ++ crlf) :=
    strtok_token hp.1 (fun c hc hd => hp.2 c hc (by simp [List.mem_singleton.mp hd])) (by decide) _
  have hthird : strtok [' '] (version ++ crlf) = some (version ++ crlf, []) := by
    refine strtok_all (by simp [hv.1]) fun c hc hd => ?_
    obtain rfl := List.mem_singleton.mp hd
    rcases List.mem_append.mp hc with hc | hc
    · exact hv.2 _ hc (by decide)
    · exact absurd hc (by decide)
  rw [requestLine, htext, hfirst]
  simp only [hsecond, hthird]

/-- The blank line ends a GET request. -/
theorem handle_end {s : HttpReader} {reads : List Str} (hfirst : s.first = false)
    (hmethod : strcasecmp s.method "get".toList = true) : s.handle crlf reads = .finished s := by
  have hf : ¬ s.first = true := by rw [hfirst]; exact Bool.false_ne_true
  have hlen : ¬ 4000000 ≤ crlf.length := by decide
  have hcookie : ¬ isCookie crlf = true := by decide
  have hblank : strcasecmp crlf crlf = true := by decide
  rw [handle, if_neg hlen, if_neg hf, if_neg hcookie, if_pos hblank, if_pos hmethod]

/-- Lines that have been read are of no account any more but for what they assign. -/
theorem past_past (s : HttpReader) (done rest done' rest' : Str) (as as' : List (Str × Str)) :
    (((s.past done rest).assign as).past done' rest').assign as'
      = (s.past done' rest').assign (as ++ as') := by
  simp only [assign, past, List.append_assoc]

/-- **The header of a GET request**, from behind the request line. -/
theorem headers_end {hs : List Str} (hhs : ∀ h ∈ hs, h ≠ [] ∧ ¬ crlf <:+: h) {s : HttpReader}
    {done rest more : Str} {reads : List Str} {r : HttpReader} (h : InHeader s done rest)
    (hfirst : s.first = false) (hmethod : strcasecmp s.method "get".toList = true)
    (hstream : rest ++ reads.flatten = headerText hs ++ more) :
    s.Finishes reads r ↔ (∀ h ∈ hs, (cstr (h ++ crlf)).length < 4000000)
      ∧ ∃ as, headerCookies hs = some as
        ∧ (s.past (done ++ headerText hs) (cutReads (headerText hs).length rest reads).1).assign as
          = r := by
  induction hs generalizing s done rest reads with
  | nil =>
      have hblank := header_line (l := []) h (by decide) hstream (r := r)
      simp only [List.nil_append] at hblank
      rw [hblank]
      show ((s.past (done ++ crlf) _).handle crlf _).Finishes r ↔ _
      rw [handle_end (s := s.past _ _) hfirst hmethod]
      simp [headerCookies, assign_nil, headerText, Round.Finishes]
  | cons l hs ih =>
      obtain ⟨⟨hne, hl⟩, hrest⟩ := List.forall_mem_cons.mp hhs
      rw [headerText_cons, List.append_assoc] at hstream
      have hline := header_line h hl hstream (r := r)
      have hcut := cutReads_flatten (l ++ crlf).length rest reads
      rw [hstream, List.drop_left] at hcut
      have hlen : (headerText (l :: hs)).length = (l ++ crlf).length + (headerText hs).length := by
        rw [headerText_cons, List.length_append]
      rw [hline, handle_header (s := s.past _ _) hfirst h.body (cstr_noNul _) (cstr_ne_crlf hne hl),
        List.forall_mem_cons, headerCookies, hlen, cutReads_add]
      cases lineCookies (cstr (l ++ crlf)) with
      | none => simp
      | some as =>
          have hnext := ih hrest (s := (s.past (done ++ (l ++ crlf))
            (cutReads (l ++ crlf).length rest reads).1).assign as) ⟨rfl, rfl, rfl, h.body⟩ hfirst
            hmethod hcut
          simp only [Option.some.injEq, exists_eq_left', Option.bind_some]
          rw [hnext, headerText_cons]
          cases headerCookies hs with
          | none => simp
          | some as' => simp [past_past, and_assoc]

end HttpReader

namespace GetRequest

variable (q : GetRequest)

theorem notMem_line {c : Char} (hc : c ∈ ['\r', '\n', '\x00']) : c ∉ q.requestLine := by
  have hblank : c ≠ ' ' := by
    rintro rfl
    exact absurd hc (by decide)
  have hmem : c ∈ [' ', '\r', '\n', '\x00'] := List.mem_cons_of_mem _ hc
  have hfree : ∀ w ∈ [q.method, q.path, q.version], c ∉ w :=
    fun w hw hm => (q.word w hw).2 c hm hmem
  have hm := hfree q.method (by simp)
  have hp := hfree q.path (by simp)
  have hv := hfree q.version (by simp)
  simp [requestLine, hm, hp, hv, hblank]

/-- The state behind the request line. -/
def opened (rest : Str) : HttpReader :=
  { HttpReader.past {} (q.requestLine ++ crlf) rest with
    first := false
    method := q.method
    path := q.path
    version := (q.version ++ crlf).dropLast }

/-- The request line, however many reads it takes. -/
theorem requestLine_end {reads : List Str} {more : Str} {r : HttpReader}
    (hstream : reads.flatten = q.requestLine ++ crlf ++ more) :
    HttpReader.Finishes {} reads r ↔ (cstr (q.requestLine ++ crlf)).length < 4000000
      ∧ (q.opened (cutReads (q.requestLine ++ crlf).length [] reads).1).Finishes
          (cutReads (q.requestLine ++ crlf).length [] reads).2 r := by
  have hline : ¬ crlf <:+: q.requestLine := fun h =>
    q.notMem_line (c := '\r') (by decide) (h.subset (by decide))
  have hnul : '\x00' ∉ q.requestLine ++ crlf := by
    have hfree := q.notMem_line (c := '\x00') (by decide)
    simp [hfree, crlf]
  have hin : HttpReader.InHeader {} [] [] := ⟨rfl, rfl, rfl, rfl⟩
  rw [HttpReader.header_line hin hline hstream, List.nil_append, cstr_eq hnul]
  by_cases hlen : 4000000 ≤ (q.requestLine ++ crlf).length
  · rw [HttpReader.handle, if_pos hlen]
    exact ⟨False.elim, fun h => absurd h.1 (Nat.not_lt.mpr hlen)⟩
  · have hwords := HttpReader.requestLine_three (HttpReader.past {} (q.requestLine ++ crlf)
      (cutReads (q.requestLine ++ crlf).length [] reads).1)
      (cutReads (q.requestLine ++ crlf).length [] reads).2 q.word
    rw [HttpReader.handle_first rfl hlen, and_iff_right (Nat.not_le.mp hlen)]
    exact iff_of_eq (congrArg (Round.Finishes · r) hwords)

/-- **A GET request is received as it was sent exactly if its header fits**, however it is cut. -/
theorem read_iff (d : Arrival q.bytes) :
    q.Received d.reads ↔ q.LinesFit ∧ (headerCookies q.headers).isSome = true := by
  have hwhole : d.reads.flatten = q.requestLine ++ crlf ++ (headerText q.headers ++ q.more) :=
    d.whole
  have hcut := cutReads_flatten (q.requestLine ++ crlf).length [] d.reads
  rw [List.nil_append, hwhole, List.drop_left] at hcut
  have hrun : ∀ r, HttpReader.Finishes {} d.reads r ↔ _ ∧ _ := fun r =>
    (q.requestLine_end hwhole).trans <| and_congr Iff.rfl <|
      HttpReader.headers_end q.lines (s := q.opened _) ⟨rfl, rfl, rfl, rfl⟩ rfl q.get hcut
  rw [LinesFit, List.forall_mem_cons, Received]
  constructor
  · rintro ⟨r, hr, -, -, -, hcookies⟩
    obtain ⟨hlen, hlines, -⟩ := (hrun r).mp hr
    exact ⟨⟨hlen, hlines⟩, hcookies ▸ rfl⟩
  · rintro ⟨⟨hlen, hlines⟩, hcookies⟩
    obtain ⟨as, has⟩ := Option.isSome_iff_exists.mp hcookies
    exact ⟨_, (hrun _).mpr ⟨hlen, hlines, as, has, rfl⟩, rfl, rfl, rfl, has⟩

end GetRequest

/-! ## The cookie -/

theorem headerCookies_append (hs hs' : List Str) : headerCookies (hs ++ hs')
    = (headerCookies hs).bind fun as => (headerCookies hs').map (as ++ ·) := by
  induction hs with
  | nil => simp [headerCookies]
  | cons l hs ih =>
      rw [List.cons_append, headerCookies, headerCookies, ih]
      cases lineCookies (cstr (l ++ crlf)) with
      | none => rfl
      | some as =>
          cases headerCookies hs with
          | none => rfl
          | some as' => simp [Function.comp_def]

theorem headerCookies_nil {hs : List Str} (h : ∀ l ∈ hs, isCookie (cstr (l ++ crlf)) = false) :
    headerCookies hs = some [] := by
  induction hs with
  | nil => rfl
  | cons l hs ih =>
      obtain ⟨hl, hhs⟩ := List.forall_mem_cons.mp h
      rw [headerCookies, lineCookies, hl, if_neg Bool.false_ne_true, Option.bind_some, ih hhs]
      rfl

theorem cookiePairs_single (n v : Str) : cookiePairs [(n, v)] = n ++ '=' :: v := List.append_nil _

section Cookie

variable {u : Str} (hu : CookieText u) (hlen : u.length < 128)

include hu hlen

/-- A session's cookie fits the arrays. -/
theorem session_fits : ∃ h : CookieHeader, h.pairs = [("username".toList, u)] := by
  have hname : "username".toList.length = 8 := by decide
  have htext : CookieText "username".toList := by simp [CookieText]
  refine ⟨⟨[("username".toList, u)], List.cons_ne_nil _ _,
    List.pairwise_singleton _ _, fun p hp => ?_, fun p hp => ?_, ?_⟩, rfl⟩
  · obtain rfl := List.mem_singleton.mp hp
    exact ⟨htext, hu⟩
  · obtain rfl := List.mem_singleton.mp hp
    simp only [hname]
    omega
  · rw [cookiePairs_single]
    simp only [List.length_append, List.length_cons, hname, crlf, List.length_nil]
    omega

/-- **A session's cookie comes back as it was set.** -/
theorem lineCookies_session :
    lineCookies (cstr (cookieField ++ cookiePairs [("username".toList, u)] ++ crlf))
    = some [("username".toList, u)] := by
  obtain ⟨header, hpairs⟩ := session_fits hu hlen
  have hline : cookieField ++ cookiePairs [("username".toList, u)] ++ crlf = header.line := by
    rw [CookieHeader.line, hpairs, List.append_assoc]
  have hnul : '\x00' ∉ cookieField ++ cookiePairs [("username".toList, u)] ++ crlf := by
    have hfree : '\x00' ∉ u := fun hm => absurd (hu.2 _ hm).2.1 (by decide)
    have hfield : '\x00' ∉ cookieField := by decide
    rw [cookiePairs_single, List.mem_append, List.mem_append, List.mem_append, List.mem_cons]
    simp [hfree, hfield, crlf]
  have hcookie : isCookie (cookieField ++ cookiePairs [("username".toList, u)] ++ crlf) = true := by
    have hfield : cookieField.length = 8 := by decide
    rw [isCookie, Bool.and_eq_true, decide_eq_true_eq, beq_iff_eq, List.append_assoc]
    refine ⟨?_, List.take_left' hfield⟩
    rw [List.length_append, List.length_append, hfield, crlf, List.length_cons]
    omega
  rw [cstr_eq hnul, lineCookies, if_pos hcookie, hline]
  exact header.line_single hpairs

theorem GetRequest.Presents.cookies {q : GetRequest} (h : q.Presents u) :
    headerCookies q.headers = some [("username".toList, u)] := by
  obtain ⟨before, after, hheaders, hothers⟩ := h
  have hbefore := headerCookies_nil fun l hl => hothers l (List.mem_append_left _ hl)
  have hafter := headerCookies_nil fun l hl => hothers l (List.mem_append_right _ hl)
  rw [hheaders, headerCookies_append, hbefore, headerCookies, lineCookies_session hu hlen, hafter]
  rfl

end Cookie

end PennCloud

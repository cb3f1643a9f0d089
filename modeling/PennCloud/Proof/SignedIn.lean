import PennCloud.Frontend.GetRequest
import PennCloud.Proof.Isolation

/-!
# Who is signed in

A session begins with an accepted sign-in or sign-up and has a `Storage` as long as
it lasts (`Agrees`). It ends with a log-out; but `/logout` does not look at the
cookie, it ends the session of the global user. So a user stays signed in until
somebody logs out while that user is the global one.

`page_served` is about the browser: the cookie that a sign-in has set comes back with
the request for a page, whose bytes may arrive in any pieces, and the page is the
user's own, exactly if the user has been signed in since.

`survives_iff` is about the process: a handler that does not call `is_logged_in`
takes it down when the global user is not signed in, and any handler may by what it
calls.
-/

namespace PennCloud

open Str

/-- The user whom a sign-in or sign-up asks to be. -/
def HttpRequest.applicant (q : HttpRequest) (s : Frontend) : Option Str :=
  match q.route with
  | .signIn c => if (q.sessionUser s).isSome then none else c.map Prod.fst
  | .signUp c => c.map Prod.fst
  | _ => none

/-- A sign-in or sign-up of `u` that is accepted. -/
def Enters (u : Str) (s : Frontend) (e : Frontend.Event) : Prop :=
  e.request.applicant s = some u ∧ e.answer.accepted = true

/-- No log-out that is taken for one of `u`. -/
def Remains (u : Str) (s : Frontend) (e : Frontend.Event) : Prop :=
  e.request.route = .unchecked (some .logout) → s.username ≠ u

/-- In the run `u` has been let in, and not logged out since. -/
def SignedIn (u : Str) (es : List Frontend.Event) : Prop :=
  Lib.Since Frontend.step (Enters u) (Remains u) .start es

instance (u : Str) : ∀ s e, Decidable (Enters u s e) :=
  fun s e => inferInstanceAs (Decidable (e.request.applicant s = some u ∧ e.answer.accepted = true))

instance (u : Str) : ∀ s e, Decidable (Remains u s e) :=
  fun s e => inferInstanceAs (Decidable (e.request.route = .unchecked (some .logout) →
    s.username ≠ u))

instance (u : Str) (es : List Frontend.Event) : Decidable (SignedIn u es) := Lib.Since.decidable _ _

/-- There is a `Storage` for each session, and for nobody else. -/
def Agrees (s : Frontend) : Prop := ∀ u, (s.storages u).isSome = s.sessions u

/-- The process outlives the request: nothing that the handler calls takes it down, and there is
what the handler needs. -/
def Survivable (s : Frontend) (e : Frontend.Event) : Prop :=
  match e.request.route with
  | .page | .unchecked (some .logout) => True
  | .plain => e.answer.fails = false
  | .files | .email => (e.request.sessionUser s).isSome = true → e.answer.fails = false
  | .signIn c => (e.request.sessionUser s).isSome = true ∨ e.answer.fails = false ∧ c.isSome = true
  | .signUp c => e.answer.fails = false ∧ c.isSome = true
  | .unchecked none | .kill => False
  | .unchecked (some (.showMail box id)) =>
    e.answer.fails = false ∧ 0 ≤ id ∧ id < (s.mails box s.username).length
  | .unchecked (some (.deleteMail _ _)) | .unchecked (some (.sendEmail _ _)) =>
      e.answer.fails = false
  -- a call of a `Storage`
  | .unchecked (some _) => e.answer.fails = false ∧ s.sessions s.username = true

/-! ## What a request does to the sessions -/

variable {s t : Frontend} {q : HttpRequest} {a : Answer} {u : Str} {x : List Touch}
  {e : Frontend.Event}

/-- Nobody comes or goes. -/
structure SameSessions (s t : Frontend) : Prop where
  sessions : t.sessions = s.sessions
  storages : ∀ u, (t.storages u).isSome = (s.storages u).isSome

theorem SameSessions.trans {v : Frontend} (h : SameSessions s t) (h' : SameSessions t v) :
    SameSessions s v :=
  ⟨h'.sessions.trans h.sessions, fun u => (h'.storages u).trans (h.storages u)⟩

theorem same_call {c : StorageCall} (h : s.call a c = some (t, x)) :
    SameSessions s t ∧ t.username = s.username := by
  obtain ⟨object, hobject, he⟩ := Option.map_eq_some_iff.mp h
  cases he
  replace hobject := (survived_eq_some.mp hobject).2
  refine ⟨⟨rfl, fun u => ?_⟩, rfl⟩
  by_cases hu : u = s.username
  · rw [hu, hobject]
    exact (congrArg Option.isSome (Function.update_self s.username (some _) s.storages)).trans rfl
  · exact congrArg Option.isSome (Function.update_of_ne hu _ _)

theorem same_calls {cs : List StorageCall} (h : s.calls a cs = some (t, x)) : SameSessions s t := by
  induction cs generalizing s t x with
  | nil =>
      cases h
      exact ⟨rfl, fun u => rfl⟩
  | cons c cs ih =>
      obtain ⟨⟨v, y⟩, hcall, h⟩ := Option.bind_eq_some_iff.mp h
      obtain ⟨⟨w, z⟩, hrest, he⟩ := Option.map_eq_some_iff.mp h
      cases he
      exact (same_call hcall).1.trans (ih hrest)

theorem same_perform {b : Action} (hb : b ≠ .logout) (h : s.perform a b = some (t, x)) :
    SameSessions s t := by
  cases b with
  | download | movingPath | moveFile | goBack | delete | openFolder | upload
      | createFolder | rename =>
      exact same_calls h
  | showMail box id =>
      obtain ⟨mail, -, he⟩ := Option.map_eq_some_iff.mp h
      cases he
      exact ⟨rfl, fun u => rfl⟩
  | deleteMail | sendEmail =>
      cases (survived_eq_some.mp h).2
      exact ⟨rfl, fun u => rfl⟩
  | logout => exact absurd rfl hb

theorem same_isLoggedIn (q : HttpRequest) (s : Frontend) : SameSessions s (s.isLoggedIn q).2 := by
  cases hv : q.sessionUser s with
  | none =>
      rw [isLoggedIn_none hv]
      exact ⟨rfl, fun u => rfl⟩
  | some v =>
      rw [isLoggedIn_some hv]
      exact ⟨rfl, fun u => rfl⟩

theorem unknown_of_not_loggedIn (h : ¬ (s.isLoggedIn q).1 = true) : q.sessionUser s = none :=
  Option.eq_none_iff_forall_ne_some.mpr fun v hv => h (loggedIn_iff.mpr ⟨v, hv⟩)

/-- What a request does to the sessions. -/
inductive SessionChange (s t : Frontend) (q : HttpRequest) (a : Answer) : Prop
  | entered (v : Str) (hv : q.applicant s = some v) (hq : q.route ≠ .unchecked (some .logout))
      (ht : t = s.enter a v)
  | left (hv : q.applicant s = none) (hq : q.route = .unchecked (some .logout))
      (hsessions : t.sessions = Function.update s.sessions s.username false)
      (hstorages : t.storages = Function.update s.storages s.username none)
  | kept (hv : q.applicant s = none) (hq : q.route ≠ .unchecked (some .logout))
      (ht : SameSessions s t)

/-- **The cases of a request**, as far as the sessions go. -/
theorem handle_changes (h : s.handle q a = some (t, x)) : SessionChange s t q a := by
  cases hroute : q.route with
  | plain =>
      simp only [Frontend.handle, hroute] at h
      cases (survived_eq_some.mp h).2
      exact .kept (by simp [HttpRequest.applicant, hroute]) (by simp [hroute]) ⟨rfl, fun u => rfl⟩
  | page =>
      simp only [Frontend.handle, hroute] at h
      cases h
      exact .kept (by simp [HttpRequest.applicant, hroute]) (by simp [hroute]) (same_isLoggedIn q s)
  | files =>
      simp only [Frontend.handle, hroute] at h
      refine .kept (by simp [HttpRequest.applicant, hroute]) (by simp [hroute]) ?_
      split at h
      · exact (same_isLoggedIn q s).trans (same_call h).1
      · cases h
        exact same_isLoggedIn q s
  | email =>
      simp only [Frontend.handle, hroute] at h
      refine .kept (by simp [HttpRequest.applicant, hroute]) (by simp [hroute])
        ((same_isLoggedIn q s).trans ?_)
      split at h
      · cases (survived_eq_some.mp h).2
        exact ⟨rfl, fun u => rfl⟩
      · cases h
        exact ⟨rfl, fun u => rfl⟩
  | signIn c =>
      simp only [Frontend.handle, hroute] at h
      split at h
      · rename_i hlogged
        cases h
        obtain ⟨v, hv⟩ := loggedIn_iff.mp hlogged
        exact .kept (by simp [HttpRequest.applicant, hroute, hv]) (by simp [hroute])
          (same_isLoggedIn q s)
      · rename_i hlogged
        obtain ⟨r, rfl, he⟩ := Option.map_eq_some_iff.mp (survived_eq_some.mp h).2
        cases he
        have hnone := unknown_of_not_loggedIn hlogged
        exact .entered r.1 (by simp [HttpRequest.applicant, hroute, hnone]) (by simp [hroute]) rfl
  | signUp c =>
      simp only [Frontend.handle, hroute] at h
      obtain ⟨r, rfl, he⟩ := Option.map_eq_some_iff.mp (survived_eq_some.mp h).2
      cases he
      exact .entered r.1 (by simp [HttpRequest.applicant, hroute]) (by simp [hroute]) rfl
  | unchecked b =>
      simp only [Frontend.handle, hroute] at h
      obtain ⟨b, rfl, h⟩ := Option.bind_eq_some_iff.mp h
      by_cases hb : b = .logout
      · subst hb
        cases h
        exact .left (by simp [HttpRequest.applicant, hroute]) hroute rfl rfl
      · exact .kept (by simp [HttpRequest.applicant, hroute]) (by simp [hroute, hb])
          (same_perform hb h)
  | kill =>
      simp only [Frontend.handle, hroute] at h
      cases h

theorem enter_sessions (a : Answer) (v u : Str) :
    (s.enter a v).sessions u = true ↔ (v = u ∧ a.accepted = true) ∨ s.sessions u = true := by
  unfold Frontend.enter
  cases ha : a.accepted with
  | false => simp
  | true =>
      by_cases hu : u = v
      · simp [hu]
      · simp [hu, Ne.symm hu]

/-- **A session begins and ends** as `Enters` and `Remains` say. -/
theorem session_step (h : s.step e = some t) :
    t.sessions u = true ↔ Enters u s e ∨ (s.sessions u = true ∧ Remains u s e) := by
  obtain ⟨⟨v, x⟩, hv, rfl⟩ := Option.map_eq_some_iff.mp h
  show v.sessions u = true ↔ _
  rw [Enters, Remains]
  cases handle_changes hv with
  | entered w hw hq ht => simp [ht, enter_sessions, hw, hq]
  | left hw hq hsessions hstorages =>
      by_cases hu : u = s.username
      · simp [hsessions, hw, hq, hu]
      · simp [hsessions, hw, hq, hu, Ne.symm hu]
  | kept hw hq ht => simp [ht.sessions, hw, hq]

theorem agrees_step (hs : Agrees s) (h : s.step e = some t) : Agrees t := by
  obtain ⟨⟨v, x⟩, hv, rfl⟩ := Option.map_eq_some_iff.mp h
  intro u
  show (v.storages u).isSome = v.sessions u
  cases handle_changes hv with
  | entered w hw hq ht =>
      rw [ht, Frontend.enter]
      split
      · by_cases hu : u = w
        · simp [hu]
        · simp [hu, hs u]
      · exact hs u
  | left hw hq hsessions hstorages =>
      rw [hsessions, hstorages]
      by_cases hu : u = s.username
      · simp [hu]
      · simp [hu, hs u]
  | kept hw hq ht => rw [ht.storages, ht.sessions, hs u]

theorem agrees_start : Agrees .start := fun _ => rfl

/-- **A user has a session exactly if signed in.** -/
theorem signedIn_iff {es : List Frontend.Event} (hr : Lib.run Frontend.step .start es = some t) :
    t.sessions u = true ↔ SignedIn u es := by
  rw [Lib.last_iff_since (P := fun s => s.sessions u = true) (fun s e t h => session_step h) hr,
    SignedIn]
  simp [Frontend.start]

-- amy's log-out is taken for one of bob, who came last
example :
    let es :=
      [signInEvent "amy".toList, signInEvent "bob".toList, getEvent "amy".toList "/logout".toList]
    SignedIn "amy".toList es ∧ ¬ SignedIn "bob".toList es := by decide +kernel

/-! ## What the process does not survive -/

theorem isSome_call (c : StorageCall) :
    (s.call a c).isSome = true ↔ a.fails = false ∧ (s.storages s.username).isSome = true := by
  rw [Frontend.call, Option.isSome_map, isSome_survived]

/-- Calls go through if there is a `Storage` for the first one. -/
theorem isSome_calls {c : StorageCall} {cs : List StorageCall} :
    (s.calls a (c :: cs)).isSome = true ↔
    a.fails = false ∧ (s.storages s.username).isSome = true := by
  induction cs generalizing s c with
  | nil =>
      rw [← isSome_call c, Frontend.calls]
      cases s.call a c <;> simp [Frontend.calls]
  | cons c' cs ih =>
      rw [← isSome_call c, Frontend.calls]
      cases hcall : s.call a c with
      | none => simp
      | some r =>
          -- the object is still there
          obtain ⟨hsame, hname⟩ := same_call (t := r.1) (x := r.2) hcall
          rw [Option.bind_some, Option.isSome_map, ih, hname, hsame.storages,
            ← isSome_call c, hcall]

theorem isSome_perform {b : Action} (hs : Agrees s) : (s.perform a b).isSome = true ↔
    match b with
    | .showMail box id => a.fails = false ∧ 0 ≤ id ∧ id < (s.mails box s.username).length
    | .deleteMail _ _ | .sendEmail _ _ => a.fails = false
    | .logout => True
    | _ => a.fails = false ∧ s.sessions s.username = true := by
  cases b with
  | download | movingPath | moveFile | goBack | delete | openFolder | upload
      | createFolder | rename =>
      rw [Frontend.perform, isSome_calls, hs]
  | deleteMail | sendEmail => simp [Frontend.perform]
  | logout => exact iff_of_true rfl trivial
  | showMail box id =>
      rw [Frontend.perform, Option.isSome_map, isSome_survived]
      refine and_congr_right fun _ => ?_
      split
      · rename_i hid
        rw [isSome_getElem?]
        omega
      · rename_i hid
        simp [hid]

/-- **A request takes the process down exactly if it is not survivable.** -/
theorem survives_step (e : Frontend.Event) (hs : Agrees s) :
    (s.step e).isSome = true ↔ Survivable s e := by
  rw [Frontend.step, Option.isSome_map, Survivable]
  cases hroute : e.request.route with
  | plain | page => simp [Frontend.handle, hroute]
  | kill => simp [Frontend.handle, hroute]
  | files =>
      simp only [Frontend.handle, hroute]
      split
      · rename_i hlogged
        obtain ⟨v, hv⟩ := loggedIn_iff.mp hlogged
        rw [isLoggedIn_some hv, isSome_call, hs, hv]
        simp [(sessionUser_cookie hv).2]
      · rename_i hlogged
        simp [unknown_of_not_loggedIn hlogged]
  | email =>
      simp only [Frontend.handle, hroute]
      split
      · rename_i hlogged
        obtain ⟨v, hv⟩ := loggedIn_iff.mp hlogged
        simp [hv]
      · rename_i hlogged
        simp [unknown_of_not_loggedIn hlogged]
  | signIn c =>
      simp only [Frontend.handle, hroute]
      split
      · rename_i hlogged
        obtain ⟨v, hv⟩ := loggedIn_iff.mp hlogged
        simp [hv]
      · rename_i hlogged
        simp [unknown_of_not_loggedIn hlogged]
  | signUp c => simp [Frontend.handle, hroute]
  | unchecked b =>
      cases b with
      | none => simp [Frontend.handle, hroute]
      | some b =>
          simp only [Frontend.handle, hroute, Option.bind_some, isSome_perform hs]
          cases b <;> rfl

-- bob's password is wrong, and he is the global user all the same
example : Lib.run Frontend.step .start
    [signInEvent "amy".toList, { signInEvent "bob".toList with answer := { accepted := false } },
      getEvent "amy".toList "/delete?notes".toList] = none := by rfl

/-! ## A page -/

/-- The request is for one of the pages that call `is_logged_in`. -/
def GetRequest.IsPage (q : GetRequest) : Prop :=
  ∃ path, parsePath q.path = some path ∧ getRoute path ∈ [Route.page, .files, .email]

/-- The page is `u`'s: nothing but `u`'s data has gone into it. -/
def ShownTo (u : Str) (s t : Frontend) : Prop :=
  t.username = u ∧ ∃ touches, t.log = s.log
    ++ [{ user := some u, actor := some u, touches := touches }] ∧
    ∀ y ∈ touches, ∀ v ∈ y.users, v = u

/-- The page to sign in; no data has been touched. -/
def TurnedAway (u : Str) (s t : Frontend) : Prop :=
  t = { s with log := s.log ++ [{ user := none, actor := some u, touches := [] }] }

theorem page_known (hpage : q.route ∈ [Route.page, .files, .email]) (hv : q.sessionUser s = some u)
    (h : s.handle q a = some (t, x)) : ServesUser s t x ∧ t.username = u := by
  simp only [List.mem_cons, List.not_mem_nil, or_false] at hpage
  rcases hpage with hroute | hroute | hroute <;>
    simp only [Frontend.handle, hroute, isLoggedIn_some hv, if_true] at h
  · cases h
    exact ⟨serves_idle u, rfl⟩
  · obtain ⟨hfor, -⟩ := forUser_call (by simp [StorageCall.userName]) h
    exact ⟨hfor.serves, hfor.username⟩
  · cases (survived_eq_some.mp h).2
    exact ⟨serves_email a.mails u, rfl⟩

theorem page_unknown (hpage : q.route ∈ [Route.page, .files, .email])
    (hv : q.sessionUser s = none) :
    s.handle q a = some (s, []) := by
  simp only [List.mem_cons, List.not_mem_nil, or_false] at hpage
  rcases hpage with hroute | hroute | hroute <;>
    simp [Frontend.handle, hroute, isLoggedIn_none hv]

/-- A page is shown to its user, if what it shows can be had, or else to nobody. -/
theorem page_step {p : HttpRequest} (hpage : p.route ∈ [Route.page, .files, .email])
    (hcookie : p.cookie = some u) (hactor : p.actor s = some u) (hs : Agrees s)
    (ho : Owned s) (a : Answer) :
    (s.sessions u = true → ((∃ t, s.step { request := p, answer := a } = some t ∧ ShownTo u s t) ↔
      p.route = .page ∨ a.fails = false)) ∧
    (s.sessions u = false → ∃ t, s.step { request := p, answer := a } = some t ∧
      TurnedAway u s t) := by
  refine ⟨fun hsession => ?_, fun hsession => ?_⟩
  · have hknown : p.sessionUser s = some u := by simp [HttpRequest.sessionUser, hcookie, hsession]
    have hsurvives : Survivable s { request := p, answer := a } ↔ p.route = .page ∨
    a.fails = false := by
      simp only [List.mem_cons, List.not_mem_nil, or_false] at hpage
      rw [Survivable]
      rcases hpage with hroute | hroute | hroute <;> simp [hroute, hknown]
    rw [← hsurvives, ← survives_step _ hs, Option.isSome_iff_exists]
    refine exists_congr fun t => and_iff_left_of_imp fun ht => ?_
    obtain ⟨⟨v, x⟩, hv, rfl⟩ := Option.map_eq_some_iff.mp ht
    obtain ⟨hserves, hname⟩ := page_known hpage hknown hv
    exact ⟨hname, x, by simp [hknown, hactor], fun y hy w hw =>
      (hserves.touches ho y hy w hw).trans hname⟩
  · have hunknown : p.sessionUser s = none := by simp [HttpRequest.sessionUser, hcookie, hsession]
    refine ⟨_, congrArg (Option.map _) (page_unknown hpage hunknown), ?_⟩
    rw [TurnedAway, hunknown, hactor]

/--
**A browser's pages.** After any requests, a browser with the cookie of `u` asks for a
page that calls `is_logged_in`, and the bytes of its request arrive in any pieces.
The request is read. If `u` has been let in and not logged out since, the page is
`u`'s own, unless what it shows cannot be had; if not, it is the page to sign in.
-/
theorem page_served {es : List Frontend.Event} (hr : Lib.run Frontend.step .start es = some s)
    (hu : CookieText u) (hlen : u.length < 128) {q : GetRequest} (hq : q.Presents u)
    (hlines : q.LinesFit)
    (hpage : q.IsPage) (d : Arrival q.bytes) (a : Answer) :
    ∃ r p, HttpReader.Finishes {} d.reads r ∧ r.request = some p ∧
      (SignedIn u es → ((∃ t, s.step { request := p, answer := a } = some t ∧ ShownTo u s t) ↔
        p.route = .page ∨ a.fails = false)) ∧
      (¬ SignedIn u es → ∃ t, s.step { request := p, answer := a } = some t ∧
        TurnedAway u s t) := by
  have hcookies := hq.cookies hu hlen
  obtain ⟨r, hread, hmethod, hpath, hmessage, hassigned⟩ :=
    (q.read_iff d).mpr ⟨hlines, hcookies ▸ rfl⟩
  obtain ⟨path, hdecoded, hroute⟩ := hpage
  have hreq : r.request = some
      { method := q.method, path := path, cookies := [("username".toList, u)] } := by
    rw [HttpReader.request, hpath, hdecoded, Option.map_some, hmethod, hmessage,
      Option.some.inj (hassigned.symm.trans hcookies)]
    rfl
  have hgets : (HttpRequest.mk q.method path [] [("username".toList, u)]).route
    = getRoute path := by
    rw [HttpRequest.route, if_pos q.get]
  have hcookie : (HttpRequest.mk q.method path [] [("username".toList, u)]).cookie = some u := by
    simp [HttpRequest.cookie]
  have hactor : (HttpRequest.mk q.method path [] [("username".toList, u)]).actor s = some u := by
    rw [HttpRequest.actor, hgets, hcookie]
    simp only [List.mem_cons, List.not_mem_nil, or_false] at hroute
    rcases hroute with h | h | h <;> rw [h]
  have hagrees : Agrees s := Lib.inv_of_run (fun _ _ _ h ht => agrees_step h ht) agrees_start hr
  have howned : Owned s := Lib.inv_of_run (fun _ _ _ h ht => owned_step h ht)
    (fun u o ho => by cases ho) hr
  obtain ⟨hshown, haway⟩ := page_step (hgets ▸ hroute) hcookie hactor hagrees howned a
  refine ⟨r, _, hread, hreq, fun hin => hshown ((signedIn_iff hr).mpr hin), fun hout => haway ?_⟩
  exact Bool.eq_false_iff.mpr fun h => hout ((signedIn_iff hr).mp h)

/-- Amy and bob sign in; bob asks for his files and logs out. -/
def bobLeaves : List Frontend.Event :=
  [signInEvent "amy".toList, signInEvent "bob".toList, getEvent "bob".toList "/files".toList,
   getEvent "bob".toList "/logout".toList]

/-- Amy's browser asks for her files. -/
def amysFiles : GetRequest where
  method := "GET".toList
  path := "/files".toList
  version := "HTTP/1.1".toList
  headers := ["Host: localhost".toList, "Cookie: username=amy".toList]
  word := by simp
  get := by decide
  lines := by decide

/-- The line break behind the cookie is cut. -/
def amysFiles_cut : Arrival amysFiles.bytes where
  reads := [amysFiles.bytes.take 59, amysFiles.bytes.drop 59]
  whole := by decide
  nonempty := by decide

theorem bobLeaves_served : ∃ s r p t, Lib.run Frontend.step .start bobLeaves = some s ∧
    HttpReader.Finishes {} amysFiles_cut.reads r ∧ r.request = some p ∧
    s.step { request := p } = some t ∧ ShownTo "amy".toList s t := by
  have hrun : (Lib.run Frontend.step .start bobLeaves).isSome = true := by decide +kernel
  have hin : SignedIn "amy".toList bobLeaves := by decide +kernel
  have hamy : CookieText "amy".toList := by simp [CookieText]
  have hcookie : amysFiles.Presents "amy".toList :=
    ⟨["Host: localhost".toList], [], by decide, by decide⟩
  have hlines : amysFiles.LinesFit := by
    rw [GetRequest.LinesFit]
    decide
  have hpage : amysFiles.IsPage := ⟨"/files".toList, by decide, by decide⟩
  obtain ⟨s, hs⟩ := Option.isSome_iff_exists.mp hrun
  obtain ⟨r, p, hr, hp, hshown, -⟩ :=
    page_served hs hamy (by decide) hcookie hlines hpage amysFiles_cut {}
  obtain ⟨t, ht, howned⟩ := (hshown hin).mpr (Or.inr rfl)
  exact ⟨s, r, p, t, hs, hr, hp, ht, howned⟩

end PennCloud

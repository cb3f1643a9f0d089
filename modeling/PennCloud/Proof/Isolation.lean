import PennCloud.Frontend.Sessions
import PennCloud.Lib.Runs

/-!
# Whose data a request touches

A handler works on the data of the global user, whoever that is. Where it has
called `is_logged_in` before, that is the user of the request's own cookie. About
a dozen handlers do not call it: they work for the user of the latest sign-in,
sign-up or page. `OwnSession` says of such a request that this user is its own.

`isolation` is about whole runs: every request has touched its own user's data
only, exactly when all unchecked requests met `OwnSession`; and then what a user's
requests read and write is what they read and write without the others.
-/

namespace PennCloud

open Str

/-- Every request handled so far has touched the data of its own session's user only. -/
def Isolated (s : Frontend) : Prop :=
  ∀ h ∈ s.log, ∀ x ∈ h.touches, ∀ u ∈ x.users, h.user = some u

/-- The condition: a request that is not checked is one of the global user, who is signed in. -/
def OwnSession (s : Frontend) (e : Frontend.Event) : Prop :=
  match e.request.route with
  | .unchecked _ => e.request.sessionUser s = some s.username
  | _ => True

instance (s : Frontend) (e : Frontend.Event) : Decidable (OwnSession s e) :=
  match h : e.request.route with
  | .unchecked _ => decidable_of_iff (e.request.sessionUser s = some s.username)
      (by rw [OwnSession, h])
  | .plain | .page | .files | .email | .signIn _ | .signUp _ | .kill =>
      .isTrue (by rw [OwnSession, h]; trivial)

/-- The requests of the run that are handled on behalf of `u`. -/
def requestsOf (u : Str) (s : Frontend) : List Frontend.Event → List Frontend.Event
  | [] => []
  | e :: es =>
    let rest := match s.step e with
      | some t => requestsOf u t es
      | none => []
    if e.request.actor s = some u then e :: rest else rest

/-- A `Storage` is kept under the name of the user it was made for. -/
def Owned (s : Frontend) : Prop := ∀ u, ∀ o ∈ s.storages u, o.userName = u

variable {s t s' : Frontend} {q : HttpRequest} {a : Answer} {u : Str} {x : List Touch}

/-! ## One call -/

/-- The user's data is the same in both states. -/
structure SameFor (u : Str) (s t : Frontend) : Prop where
  sessions : t.sessions u = s.sessions u
  storages : t.storages u = s.storages u
  mails : ∀ box, t.mails box u = s.mails box u

theorem SameFor.refl (u : Str) (s : Frontend) : SameFor u s s := ⟨rfl, rfl, fun _ => rfl⟩

/-- What is done for the user `s.username`, who stays the global one. -/
structure ForUser (s t : Frontend) (x : List Touch) : Prop where
  username : t.username = s.username
  owned : Owned s → Owned t
  touches : Owned s → ∀ y ∈ x, ∀ u ∈ y.users, u = s.username
  others : ∀ u, u ≠ s.username → SameFor u s t

theorem Touch.users_ne_nil (y : Touch) : ∃ u, u ∈ y.users := by
  cases y <;> exact ⟨_, List.mem_cons_self⟩

theorem owned_update {o : StorageObject} (hs : Owned s) {v : Str} (ho : o.userName = v) :
    ∀ u, ∀ o' ∈ Function.update s.storages v (some o) u, o'.userName = u := by
  intro u o' ho'
  by_cases huv : u = v
  · subst huv
    rw [Function.update_self] at ho'
    exact Option.some.inj ho' ▸ ho
  · rw [Function.update_of_ne huv] at ho'
    exact hs u o' ho'

theorem forUser_call {c : StorageCall} (hc : ∀ v ∈ c.userName, v = s.username)
    (h : s.call a c = some (t, x)) : ForUser s t x ∧ x ≠ [] := by
  obtain ⟨object, hobject, he⟩ := Option.map_eq_some_iff.mp h
  cases he
  replace hobject := (survived_eq_some.mp hobject).2
  refine ⟨⟨rfl, fun hs => ?_, fun hs y hy u hu => ?_, fun u hu => ⟨rfl, ?_, fun _ => rfl⟩⟩, by simp⟩
  · exact owned_update hs (hs _ object hobject)
  · rw [List.mem_singleton.mp hy] at hu
    simp only [Touch.users, List.mem_cons] at hu
    rcases hu with rfl | rfl | hu
    · rfl
    · exact hs _ object hobject
    · exact hc u (Option.mem_toList.mp hu)
  · exact Function.update_of_ne hu _ _

theorem forUser_calls {cs : List StorageCall} (hcs : ∀ c ∈ cs, ∀ v ∈ c.userName, v = s.username)
    (h : s.calls a cs = some (t, x)) : ForUser s t x ∧ (cs ≠ [] → x ≠ []) := by
  induction cs generalizing s t x with
  | nil =>
      cases h
      exact ⟨⟨rfl, id, fun _ y hy => absurd hy List.not_mem_nil, fun u _ => .refl u s⟩,
        fun hne => absurd rfl hne⟩
  | cons c cs ih =>
      obtain ⟨⟨v, y⟩, hcall, h⟩ := Option.bind_eq_some_iff.mp h
      obtain ⟨⟨w, z⟩, hrest, he⟩ := Option.map_eq_some_iff.mp h
      cases he
      obtain ⟨hfirst, hne⟩ := forUser_call (hcs c List.mem_cons_self) hcall
      obtain ⟨hsecond, -⟩ :=
        ih (s := v) (fun c' hc' => hfirst.username ▸ hcs c' (List.mem_cons_of_mem _ hc'))
        hrest
      refine ⟨⟨hsecond.username.trans hfirst.username, fun hs =>
        hsecond.owned (hfirst.owned hs), ?_, ?_⟩, fun _ => by simp [hne]⟩
      · intro hs t' ht' u hu
        rcases List.mem_append.mp ht' with ht' | ht'
        · exact hfirst.touches hs t' ht' u hu
        · exact (hsecond.touches (hfirst.owned hs) t' ht' u hu).trans hfirst.username
      · intro u hu
        have h₁ := hfirst.others u hu
        have h₂ := hsecond.others u (hfirst.username ▸ hu)
        exact ⟨h₂.sessions.trans h₁.sessions, h₂.storages.trans h₁.storages,
          fun box => (h₂.mails box).trans (h₁.mails box)⟩

/-- **An unchecked handler works for the global user**, and touches that user's data. -/
theorem forUser_perform {b : Action} (h : s.perform a b = some (t, x)) :
    ForUser s t x ∧ x ≠ [] := by
  have hcalls : ∀ cs, (∀ c ∈ cs, ∀ v ∈ c.userName, v = s.username) → cs ≠ [] →
      s.calls a cs = some (t, x) → ForUser s t x ∧ x ≠ [] := by
    intro cs hcs hne h
    obtain ⟨hfor, htouches⟩ := forUser_calls hcs h
    exact ⟨hfor, htouches hne⟩
  have hmails : ∀ y : Touch, y.users = [s.username] → s = t → [y] = x → ForUser s t x ∧ x ≠ [] := by
    rintro y hy rfl rfl
    refine ⟨⟨rfl, id, fun _ z hz u hu => ?_, fun u _ => .refl u s⟩, by simp⟩
    rw [List.mem_singleton.mp hz, hy] at hu
    exact List.mem_singleton.mp hu
  cases b with
  | download filename => exact hcalls _ (by simp [StorageCall.userName]) (by simp) h
  | movingPath filename => exact hcalls _ (by simp [StorageCall.userName]) (by simp) h
  | moveFile folder filename => exact hcalls _ (by simp [StorageCall.userName]) (by simp) h
  | goBack index => exact hcalls _ (by simp [StorageCall.userName]) (by simp) h
  | delete filename => exact hcalls _ (by simp [StorageCall.userName]) (by simp) h
  | openFolder foldername => exact hcalls _ (by simp [StorageCall.userName]) (by simp) h
  | upload filename content size => exact hcalls _ (by simp [StorageCall.userName]) (by simp) h
  | createFolder foldername => exact hcalls _ (by simp [StorageCall.userName]) (by simp) h
  | rename prename newname =>
      refine hcalls _ ?_ (by simp) h
      cases a.accepted <;> simp [StorageCall.userName]
  | showMail box id =>
      obtain ⟨mail, -, he⟩ := Option.map_eq_some_iff.mp h
      cases he
      exact hmails _ rfl rfl rfl
  | deleteMail box hash =>
      cases (survived_eq_some.mp h).2
      exact hmails _ rfl rfl rfl
  | sendEmail recipient content =>
      cases (survived_eq_some.mp h).2
      exact hmails _ rfl rfl rfl
  | logout =>
      cases h
      refine ⟨⟨rfl, fun hs u o ho => ?_, fun _ y hy u hu => ?_, fun u hu =>
        ⟨?_, ?_, fun _ => rfl⟩⟩, by simp⟩
      · have ho' : o ∈ Function.update s.storages s.username none u := ho
        by_cases hus : u = s.username
        · rw [hus, Function.update_self] at ho'
          cases ho'
        · rw [Function.update_of_ne hus] at ho'
          exact hs u o ho'
      · rw [List.mem_singleton.mp hy] at hu
        exact List.mem_singleton.mp hu
      · exact Function.update_of_ne hu _ _
      · exact Function.update_of_ne hu _ _

/-! ## One request -/

/-- What a request does, it does for the user who is then the global one. -/
structure ServesUser (s t : Frontend) (x : List Touch) : Prop where
  owned : Owned s → Owned t
  touches : Owned s → ∀ y ∈ x, ∀ u ∈ y.users, u = t.username
  others : ∀ u, u ≠ t.username → SameFor u s t

/-- A handler that finds `username` set to `v` works for `v`. -/
theorem ForUser.serves {v : Str} (h : ForUser { s with username := v } t x) : ServesUser s t x where
  owned hs := h.owned hs
  touches hs y hy u hu := (h.touches hs y hy u hu).trans h.username.symm
  others u hu := by
    have hsame := h.others u (h.username ▸ hu)
    exact ⟨hsame.sessions, hsame.storages, hsame.mails⟩

/-- Nothing is done but that the global user may be set. -/
theorem serves_idle (v : Str) : ServesUser s { s with username := v } [] where
  owned := id
  touches _ _ hy := absurd hy List.not_mem_nil
  others _ _ := ⟨rfl, rfl, fun _ => rfl⟩

theorem serves_enter (a : Answer) (v : Str) : ServesUser s (s.enter a v) [] := by
  unfold Frontend.enter
  split
  · refine ⟨fun hs => owned_update hs ?_, fun _ _ hy => absurd hy List.not_mem_nil,
      fun u hu => ⟨Function.update_of_ne hu _ _, Function.update_of_ne hu _ _, fun _ => rfl⟩⟩
    cases ho : s.storages v with
    | none => rfl
    | some o => exact hs v o ho
  · exact serves_idle v

theorem isLoggedIn_some (h : q.sessionUser s = some u) :
    s.isLoggedIn q = (true, { s with username := u }) := by
  rw [Frontend.isLoggedIn, h]

theorem isLoggedIn_none (h : q.sessionUser s = none) : s.isLoggedIn q = (false, s) := by
  rw [Frontend.isLoggedIn, h]

theorem loggedIn_iff : (s.isLoggedIn q).1 = true ↔ ∃ v, q.sessionUser s = some v := by
  cases hv : q.sessionUser s with
  | none =>
      rw [isLoggedIn_none hv]
      exact iff_of_false Bool.false_ne_true fun ⟨v, hsome⟩ => by cases hsome
  | some v =>
      rw [isLoggedIn_some hv]
      exact iff_of_true rfl ⟨v, rfl⟩

/-- How a request is handled. -/
inductive Does (s t : Frontend) (q : HttpRequest) (a : Answer) (x : List Touch) : Prop
  /-- Nothing is done. -/
  | nothing (hq : ∀ b, q.route ≠ .unchecked b) (ht : t = s) (hx : x = [])
  /-- `is_logged_in` has found a session, and the handler goes on for its user, or stops there. -/
  | checked (v : Str) (hq : ∀ b, q.route ≠ .unchecked b) (hv : q.sessionUser s = some v)
      (hactor : q.actor s = some v) (ht : ServesUser s t x) (hname : t.username = v)
  /-- A sign-in or sign-up with the name `v`. -/
  | entered (v : Str) (hq : ∀ b, q.route ≠ .unchecked b) (hactor : q.actor s = some v)
      (ht : t = s.enter a v) (hx : x = [])
  /-- There is no check, and the handler goes on for the global user. -/
  | unchecked (b : Action) (hq : q.route = .unchecked (some b)) (hactor : q.actor s = q.cookie)
      (h : s.perform a b = some (t, x))

theorem sessionUser_cookie (h : q.sessionUser s = some u) :
    q.cookie = some u ∧ s.sessions u = true :=
  Option.filter_eq_some_iff.mp h

theorem enter_username (a : Answer) (v : Str) : (s.enter a v).username = v := by
  unfold Frontend.enter
  split <;> rfl

/-- Behind `is_logged_in`, a session's request is handled on behalf of its user. -/
theorem actor_of_session (hq : ∀ c, q.route ≠ .signUp c) (hv : q.sessionUser s = some u) :
    q.actor s = some u := by
  unfold HttpRequest.actor
  split
  · rw [hv, Option.some_or]
  · rename_i c hroute
    exact absurd hroute (hq c)
  · exact (sessionUser_cookie hv).1

/-- The mails of the user are fetched and kept. -/
theorem serves_email (mails : Box → List Email) (v : Str) :
    ServesUser s { s with
        username := v
        mails := fun box => Function.update (s.mails box) v (mails box) }
      [.receive v .inbox (mails .inbox), .receive v .outbox (mails .outbox)] where
  owned := id
  touches _ y hy u hu := by
    simp only [List.mem_cons, List.not_mem_nil, or_false] at hy
    rcases hy with rfl | rfl
    · exact List.mem_singleton.mp hu
    · exact List.mem_singleton.mp hu
  others u hu := ⟨rfl, rfl, fun _ => Function.update_of_ne hu _ _⟩

/-- A page behind `is_logged_in`. -/
theorem does_page (hq : ∀ b, q.route ≠ .unchecked b) (hup : ∀ c, q.route ≠ .signUp c) :
    Does s (s.isLoggedIn q).2 q a [] := by
  cases hu : q.sessionUser s with
  | none =>
      rw [isLoggedIn_none hu]
      exact .nothing hq rfl rfl
  | some v =>
      rw [isLoggedIn_some hu]
      exact .checked v hq hu (actor_of_session hup hu) (serves_idle v) rfl

/-- A handler that goes on for the user behind `is_logged_in`, and shows a page to others. -/
theorem does_checked {y : Option (Frontend × List Touch)} (hq : ∀ b, q.route ≠ .unchecked b)
    (hup : ∀ c, q.route ≠ .signUp c)
    (h : (if (s.isLoggedIn q).1 then y else some ((s.isLoggedIn q).2, [])) = some (t, x))
    (hserves : ∀ v, s.isLoggedIn q = (true, { s with username := v }) → y = some (t, x) →
      ServesUser s t x ∧ t.username = v) : Does s t q a x := by
  split at h
  · rename_i hlogged
    obtain ⟨v, hu⟩ := loggedIn_iff.mp hlogged
    obtain ⟨hserved, hname⟩ := hserves v (isLoggedIn_some hu) h
    exact .checked v hq hu (actor_of_session hup hu) hserved hname
  · cases h
    exact does_page hq hup

/-- **The cases of a request.** -/
theorem handle_does (h : s.handle q a = some (t, x)) : Does s t q a x := by
  cases hroute : q.route with
  | plain =>
      simp only [Frontend.handle, hroute] at h
      cases (survived_eq_some.mp h).2
      exact .nothing (by simp [hroute]) rfl rfl
  | page =>
      simp only [Frontend.handle, hroute] at h
      cases h
      exact does_page (by simp [hroute]) (by simp [hroute])
  | files =>
      simp only [Frontend.handle, hroute] at h
      refine does_checked (by simp [hroute]) (by simp [hroute]) h fun v hlogged hcall => ?_
      rw [hlogged] at hcall
      obtain ⟨hfor, -⟩ := forUser_call (by simp [StorageCall.userName]) hcall
      exact ⟨hfor.serves, hfor.username⟩
  | email =>
      simp only [Frontend.handle, hroute] at h
      refine does_checked (by simp [hroute]) (by simp [hroute]) h fun v hlogged hmails => ?_
      rw [hlogged] at hmails
      cases (survived_eq_some.mp hmails).2
      exact ⟨serves_email a.mails v, rfl⟩
  | signIn c =>
      simp only [Frontend.handle, hroute] at h
      split at h
      · cases h
        exact does_page (by simp [hroute]) (by simp [hroute])
      · rename_i hlogged
        obtain ⟨r, rfl, he⟩ := Option.map_eq_some_iff.mp (survived_eq_some.mp h).2
        cases he
        -- the password is only asked for when no cookie names a session
        have hnone : q.sessionUser s = none :=
          Option.eq_none_iff_forall_ne_some.mpr fun v hv => hlogged (loggedIn_iff.mpr ⟨v, hv⟩)
        refine .entered r.1 (by simp [hroute]) ?_ rfl rfl
        rw [HttpRequest.actor, hroute]
        simp [hnone]
  | signUp c =>
      simp only [Frontend.handle, hroute] at h
      obtain ⟨r, rfl, he⟩ := Option.map_eq_some_iff.mp (survived_eq_some.mp h).2
      cases he
      refine .entered r.1 (by simp [hroute]) ?_ rfl rfl
      rw [HttpRequest.actor, hroute]
      rfl
  | unchecked b =>
      simp only [Frontend.handle, hroute] at h
      obtain ⟨b, rfl, h⟩ := Option.bind_eq_some_iff.mp h
      exact .unchecked b hroute (by rw [HttpRequest.actor, hroute]) h
  | kill =>
      simp only [Frontend.handle, hroute] at h
      cases h

theorem Does.serves (h : Does s t q a x) : ServesUser s t x := by
  cases h with
  | nothing hq ht hx =>
      rw [ht, hx]
      exact serves_idle s.username
  | checked v hq hv hactor ht hname => exact ht
  | entered v hq hactor ht hx =>
      rw [ht, hx]
      exact serves_enter a v
  | unchecked b hq hactor h => exact (forUser_perform h).1.serves

/-- **A request is isolated exactly under its condition.** -/
theorem isolated_handle {e : Frontend.Event} (hs : Owned s)
    (h : s.handle e.request e.answer = some (t, x)) :
    (∀ y ∈ x, ∀ u ∈ y.users, e.request.sessionUser s = some u) ↔ OwnSession s e := by
  have hdoes := handle_does h
  have hserves := hdoes.serves
  have hfree : (∀ b, e.request.route ≠ .unchecked b) → OwnSession s e := by
    intro hq
    unfold OwnSession
    split
    · rename_i b hb
      exact absurd hb (hq b)
    · trivial
  cases hdoes with
  | nothing hq ht hx =>
      refine iff_of_true (fun y hy => ?_) (hfree hq)
      rw [hx] at hy
      exact absurd hy List.not_mem_nil
  | checked v hq hv hactor ht hname =>
      refine iff_of_true (fun y hy u hu => ?_) (hfree hq)
      rw [hserves.touches hs y hy u hu, hname, hv]
  | entered v hq hactor ht hx =>
      refine iff_of_true (fun y hy => ?_) (hfree hq)
      rw [hx] at hy
      exact absurd hy List.not_mem_nil
  | unchecked b hq hactor h =>
      obtain ⟨hfor, hne⟩ := forUser_perform h
      have hown : OwnSession s e ↔ e.request.sessionUser s = some s.username := by
        rw [OwnSession, hq]
      rw [hown]
      constructor
      · intro hall
        -- something is touched, and it is the global user's
        obtain ⟨y, hy⟩ := List.exists_mem_of_ne_nil x hne
        obtain ⟨u, hu⟩ := y.users_ne_nil
        rw [hall y hy u hu, hfor.touches hs y hy u hu]
      · intro hsession y hy u hu
        rw [hfor.touches hs y hy u hu, hsession]

/-! ## Without the others -/

/-- `s'` is the state `s` as the user's own requests alone would have made it. -/
structure Mirrors (u : Str) (s s' : Frontend) : Prop where
  same : SameFor u s s'
  name : s.sessions u = true → s'.username = u
  only : ∀ v, s'.sessions v = true → v = u

/-- A request on behalf of somebody else leaves the user's data as it is. -/
theorem mirrors_other {e : Frontend.Event} (hown : OwnSession s e) (hm : Mirrors u s s')
    (hactor : e.request.actor s ≠ some u) (h : s.handle e.request e.answer = some (t, x)) :
    Mirrors u t s' := by
  have hdoes := handle_does h
  have hserves := hdoes.serves
  have hcases : SameFor u s t := by
    cases hdoes with
    | nothing hq ht hx => exact ht ▸ .refl u s
    | checked v hq hv hactor' ht hname =>
        refine ht.others u fun hu => hactor ?_
        rw [hactor', hu, hname]
    | entered v hq hactor' ht hx =>
        refine hserves.others u fun hu => hactor ?_
        rw [hactor', hu, ht, enter_username]
    | unchecked b hq hactor' h =>
        rw [OwnSession, hq] at hown
        refine (forUser_perform h).1.others u fun hu => hactor ?_
        rw [hactor', hu]
        exact (sessionUser_cookie hown).1
  refine ⟨⟨?_, ?_, fun box => ?_⟩, ?_, hm.only⟩
  · rw [hm.same.sessions, hcases.sessions]
  · rw [hm.same.storages, hcases.storages]
  · rw [hm.same.mails box, hcases.mails box]
  · rw [hcases.sessions]
    exact hm.name

/-- Two states that mirror one another, the user being the global one in both. -/
structure Acting (u : Str) (s s' : Frontend) : Prop where
  mirrors : Mirrors u s s'
  username : s.username = u
  username' : s'.username = u

theorem acting_named (hm : Mirrors u s s') :
    Acting u { s with username := u } { s' with username := u } where
  mirrors := ⟨⟨hm.same.sessions, hm.same.storages, hm.same.mails⟩, fun _ => rfl, hm.only⟩
  username := rfl
  username' := rfl

theorem call_eq (c : StorageCall) {object : StorageObject} (ha : a.fails = false)
    (h : s.storages s.username = some object) :
    s.call a c = some ({ s with
        storages := Function.update s.storages s.username
          (some { object with calls := object.calls ++ [c] }) },
      [.storage s.username object c]) := by
  rw [Frontend.call, survived_eq_some.mpr ⟨ha, h⟩]
  rfl

theorem acting_call {c : StorageCall} (hm : Acting u s s') (h : s.call a c = some (t, x)) :
    ∃ t', s'.call a c = some (t', x) ∧ Acting u t t' := by
  obtain ⟨⟨⟨hsessions, hstorages, hmails⟩, hname, honly⟩, rfl, hname'⟩ := hm
  obtain ⟨object, hobject, he⟩ := Option.map_eq_some_iff.mp h
  cases he
  obtain ⟨ha, hobject⟩ := survived_eq_some.mp hobject
  have hcall := call_eq c ha (hname' ▸ hstorages.trans hobject)
  rw [hname'] at hcall
  refine ⟨_, hcall, ⟨⟨hsessions, ?_, hmails⟩, fun _ => rfl, honly⟩, rfl, rfl⟩
  simp only [Function.update_self]

theorem acting_calls {cs : List StorageCall} (hm : Acting u s s') (h : s.calls a cs = some (t, x)) :
    ∃ t', s'.calls a cs = some (t', x) ∧ Acting u t t' := by
  induction cs generalizing s s' t x with
  | nil =>
      cases h
      exact ⟨s', rfl, hm⟩
  | cons c cs ih =>
      obtain ⟨⟨v, y⟩, hcall, h⟩ := Option.bind_eq_some_iff.mp h
      obtain ⟨⟨w, z⟩, hrest, he⟩ := Option.map_eq_some_iff.mp h
      cases he
      obtain ⟨v', hcall', hv⟩ := acting_call hm hcall
      obtain ⟨w', hrest', hw⟩ := ih hv hrest
      refine ⟨w', ?_, hw⟩
      rw [Frontend.calls, hcall', Option.bind_some, hrest']
      rfl

/-- **An unchecked handler does the same in both states.** -/
theorem acting_perform {b : Action} (hm : Acting u s s') (h : s.perform a b = some (t, x)) :
    ∃ t', s'.perform a b = some (t', x) ∧ Acting u t t' := by
  obtain ⟨hmirrors, rfl, hname'⟩ := hm
  have hacting : Acting s.username s s' := ⟨hmirrors, rfl, hname'⟩
  cases b with
  | showMail box id =>
      obtain ⟨mail, hmail, he⟩ := Option.map_eq_some_iff.mp h
      cases he
      refine ⟨s', ?_, hacting⟩
      rw [Frontend.perform, hname', hmirrors.same.mails box, hmail]
      rfl
  | deleteMail box hash =>
      obtain ⟨ha, hsome⟩ := survived_eq_some.mp h
      cases hsome
      exact ⟨s', by rw [Frontend.perform, hname', survived_eq_some.mpr ⟨ha, rfl⟩], hacting⟩
  | sendEmail recipient content =>
      obtain ⟨ha, hsome⟩ := survived_eq_some.mp h
      cases hsome
      exact ⟨s', by rw [Frontend.perform, hname', survived_eq_some.mpr ⟨ha, rfl⟩], hacting⟩
  | logout =>
      cases h
      have hlogout : s'.perform a .logout = some (_, _) := rfl
      rw [hname'] at hlogout
      refine ⟨_, hlogout, ⟨⟨?_, ?_, hmirrors.same.mails⟩, fun _ => rfl, fun v hv => ?_⟩, rfl, rfl⟩
      · simp only [Function.update_self]
      · simp only [Function.update_self]
      · by_contra hne
        exact hne (hmirrors.only v ((Function.update_of_ne hne _ _).symm.trans hv))
  | movingPath filename => exact acting_calls hacting h
  | moveFile folder filename => exact acting_calls hacting h
  | goBack index => exact acting_calls hacting h
  -- the other calls name the user
  | _ =>
      rw [Frontend.perform, hname']
      exact acting_calls hacting h

theorem acting_enter (hm : Mirrors u s s') : Acting u (s.enter a u) (s'.enter a u) := by
  unfold Frontend.enter
  split
  · refine ⟨⟨⟨?_, ?_, hm.same.mails⟩, fun _ => rfl, fun v hv => ?_⟩, rfl, rfl⟩
    · simp only [Function.update_self]
    · simp only [Function.update_self, hm.same.storages]
    · by_contra hne
      exact hne (hm.only v ((Function.update_of_ne hne _ _).symm.trans hv))
  · exact acting_named hm

/-- The cookie of the user's own request is known in both states or in neither. -/
theorem sessionUser_mirrors (hm : Mirrors u s s') (hq : q.cookie = some u) :
    q.sessionUser s' = q.sessionUser s := by
  rw [HttpRequest.sessionUser, HttpRequest.sessionUser, hq, Option.filter_some, Option.filter_some,
    hm.same.sessions]

/-- A sign-in of somebody who has no session in the one state has none in the other. -/
theorem sessionUser_none (hm : Mirrors u s s') (h : q.sessionUser s = none) :
    q.sessionUser s' = none := by
  cases hu : q.sessionUser s' with
  | none => rfl
  | some v =>
      obtain ⟨hcookie, hsession⟩ := sessionUser_cookie hu
      obtain rfl := hm.only v hsession
      rw [← sessionUser_mirrors hm hcookie, hu] at h
      cases h

/-- The user's own request is logged in in both states, or in neither. -/
theorem sessionUser_own (hm : Mirrors u s s') (hq : q.cookie = some u) :
    q.sessionUser s = none ∧ q.sessionUser s' = none ∨
    q.sessionUser s = some u ∧ q.sessionUser s' = some u := by
  have hsame := sessionUser_mirrors hm hq
  cases hv : q.sessionUser s with
  | none => exact Or.inl ⟨rfl, hsame.trans hv⟩
  | some v =>
      obtain rfl : u = v := Option.some.inj (hq.symm.trans (sessionUser_cookie hv).1)
      exact Or.inr ⟨rfl, hsame.trans hv⟩

theorem mirrors_page (hm : Mirrors u s s') (hq : q.cookie = some u) :
    Mirrors u (s.isLoggedIn q).2 (s'.isLoggedIn q).2 := by
  rcases sessionUser_own hm hq with ⟨hv, hv'⟩ | ⟨hv, hv'⟩
  · rw [isLoggedIn_none hv, isLoggedIn_none hv']
    exact hm
  · rw [isLoggedIn_some hv, isLoggedIn_some hv']
    exact (acting_named hm).mirrors

/-- A sign-in goes by the cookie, or else by the name that is typed. -/
theorem mirrors_signIn {c : Option (Str × Str)} (hroute : q.route = .signIn c) (hm : Mirrors u s s')
    (hactor : q.actor s = some u) (h : s.handle q a = some (t, x)) :
    ∃ t', s'.handle q a = some (t', x) ∧ Mirrors u t t' ∧ q.actor s' = some u := by
  simp only [Frontend.handle, HttpRequest.actor, hroute] at h hactor ⊢
  cases hv : q.sessionUser s with
  | some v =>
      rw [hv, Option.some_or] at hactor
      obtain rfl := Option.some.inj hactor
      have hsame := sessionUser_mirrors hm (sessionUser_cookie hv).1
      rw [isLoggedIn_some hv] at h
      rw [hsame, hv, isLoggedIn_some (hsame.trans hv)]
      cases h
      exact ⟨_, rfl, (acting_named hm).mirrors, rfl⟩
  | none =>
      have hnone := sessionUser_none hm hv
      rw [hv, Option.none_or] at hactor
      rw [isLoggedIn_none hv] at h
      rw [hnone, isLoggedIn_none hnone, Option.none_or]
      obtain ⟨ha, h⟩ := survived_eq_some.mp h
      obtain ⟨r, rfl, he⟩ := Option.map_eq_some_iff.mp h
      cases he
      obtain rfl := Option.some.inj hactor
      exact ⟨_, survived_eq_some.mpr ⟨ha, rfl⟩, (acting_enter hm).mirrors, rfl⟩

/-- **The user's own request does the same in both states.** -/
theorem mirrors_own {e : Frontend.Event} (hown : OwnSession s e) (hm : Mirrors u s s')
    (hactor : e.request.actor s = some u) (h : s.handle e.request e.answer = some (t, x)) :
    ∃ t', s'.handle e.request e.answer = some (t', x) ∧ Mirrors u t t' ∧
      e.request.actor s' = some u := by
  obtain ⟨q, a⟩ := e
  simp only at hactor h ⊢
  cases hroute : q.route with
  | plain =>
      simp only [Frontend.handle, HttpRequest.actor, hroute] at h hactor ⊢
      obtain ⟨ha, hsome⟩ := survived_eq_some.mp h
      cases hsome
      exact ⟨s', survived_eq_some.mpr ⟨ha, rfl⟩, hm, hactor⟩
  | page =>
      simp only [Frontend.handle, HttpRequest.actor, hroute] at h hactor ⊢
      cases h
      exact ⟨_, rfl, mirrors_page hm hactor, hactor⟩
  | files =>
      simp only [Frontend.handle, HttpRequest.actor, hroute] at h hactor ⊢
      rcases sessionUser_own hm hactor with ⟨hv, hv'⟩ | ⟨hv, hv'⟩
      · rw [isLoggedIn_none hv] at h
        rw [isLoggedIn_none hv']
        cases h
        exact ⟨s', rfl, hm, hactor⟩
      · rw [isLoggedIn_some hv] at h
        rw [isLoggedIn_some hv']
        obtain ⟨t', hcall, ht⟩ := acting_call (acting_named hm) h
        exact ⟨t', hcall, ht.mirrors, hactor⟩
  | email =>
      simp only [Frontend.handle, HttpRequest.actor, hroute] at h hactor ⊢
      rcases sessionUser_own hm hactor with ⟨hv, hv'⟩ | ⟨hv, hv'⟩
      · rw [isLoggedIn_none hv] at h
        rw [isLoggedIn_none hv']
        cases h
        exact ⟨s', rfl, hm, hactor⟩
      · rw [isLoggedIn_some hv] at h
        rw [isLoggedIn_some hv']
        obtain ⟨ha, hsome⟩ := survived_eq_some.mp h
        cases hsome
        refine ⟨_, survived_eq_some.mpr ⟨ha, rfl⟩,
          ⟨⟨hm.same.sessions, hm.same.storages, fun box => ?_⟩, fun _ => rfl, hm.only⟩,
          hactor⟩
        simp only [Function.update_self]
  | signIn c => exact mirrors_signIn hroute hm hactor h
  | signUp c =>
      simp only [Frontend.handle, HttpRequest.actor, hroute] at h hactor ⊢
      obtain ⟨ha, h⟩ := survived_eq_some.mp h
      obtain ⟨r, rfl, he⟩ := Option.map_eq_some_iff.mp h
      cases he
      obtain rfl := Option.some.inj hactor
      exact ⟨_, survived_eq_some.mpr ⟨ha, rfl⟩, (acting_enter hm).mirrors, rfl⟩
  | unchecked b =>
      simp only [Frontend.handle, HttpRequest.actor, OwnSession, hroute] at h hactor hown ⊢
      obtain ⟨b, rfl, h⟩ := Option.bind_eq_some_iff.mp h
      -- the condition: the user is the global one, and signed in
      obtain ⟨hcookie, hsession⟩ := sessionUser_cookie hown
      obtain rfl := Option.some.inj (hcookie.symm.trans hactor)
      obtain ⟨t', hperform, ht⟩ := acting_perform ⟨hm, rfl, hm.name hsession⟩ h
      exact ⟨t', hperform, ht.mirrors, hactor⟩
  | kill =>
      simp only [Frontend.handle, hroute] at h
      cases h

/-! ## Runs -/

theorem owned_step {e : Frontend.Event} (hs : Owned s) (h : s.step e = some t) : Owned t := by
  obtain ⟨⟨v, y⟩, hv, rfl⟩ := Option.map_eq_some_iff.mp h
  exact (handle_does hv).serves.owned hs

/-- **A request keeps a run isolated exactly under its condition.** -/
theorem isolated_step {e : Frontend.Event} (hs : Owned s) (hi : Isolated s)
    (h : s.step e = some t) :
    Isolated t ↔ OwnSession s e := by
  obtain ⟨⟨v, y⟩, hv, rfl⟩ := Option.map_eq_some_iff.mp h
  rw [← isolated_handle hs hv]
  constructor
  · intro hall
    exact hall _ (List.mem_append_right _ (List.mem_singleton_self _))
  · intro hnew r hr
    rcases List.mem_append.mp hr with hr | hr
    · exact hi r hr
    · rw [List.mem_singleton.mp hr]
      exact hnew

/-- What the user's requests have touched. -/
def touchesOf (u : Str) (s : Frontend) : List (List Touch) :=
  (s.log.filter fun r => r.actor = some u).map HandledRequest.touches

theorem Mirrors.with_log (hm : Mirrors u s s') (l l' : List HandledRequest) :
    Mirrors u { s with log := l } { s' with log := l' } :=
  ⟨⟨hm.same.sessions, hm.same.storages, hm.same.mails⟩, hm.name, hm.only⟩

theorem touchesOf_append (u : Str) (w : Frontend) (l : List HandledRequest) (r : HandledRequest) :
    touchesOf u { w with log := l ++ [r] } =
      touchesOf u { w with log := l } ++ if r.actor = some u then [r.touches] else [] := by
  rw [touchesOf, touchesOf, List.filter_append, List.map_append]
  split
  · rename_i hr
    simp [hr]
  · rename_i hr
    simp [hr]

/-- **The user's requests alone touch what they touch among the others.** -/
theorem requestsOf_run {es : List Frontend.Event} (hm : Mirrors u s s')
    (htouches : touchesOf u s' = touchesOf u s) (hg : Lib.Guarded Frontend.step OwnSession s es)
    (hr : Lib.run Frontend.step s es = some t) :
    ∃ t', Lib.run Frontend.step s' (requestsOf u s es) = some t' ∧
      touchesOf u t' = touchesOf u t := by
  induction es generalizing s s' with
  | nil =>
      cases hr
      exact ⟨s', rfl, htouches⟩
  | cons e es ih =>
      obtain ⟨v, hv, hr⟩ := Lib.run_cons hr
      have hg' := hg.2 v hv
      obtain ⟨⟨w, x⟩, hw, rfl⟩ := Option.map_eq_some_iff.mp hv
      rw [requestsOf, hv]
      dsimp only
      by_cases hactor : e.request.actor s = some u
      · obtain ⟨w', hw', hmirrors, hactor'⟩ := mirrors_own hg.1 hm hactor hw
        obtain ⟨t', ht', htouches'⟩ := ih (hmirrors.with_log _ (s'.log ++
          [{ user := e.request.sessionUser s', actor := e.request.actor s', touches := x }])) (by
            rw [touchesOf_append, touchesOf_append, if_pos hactor, if_pos hactor']
            exact congrArg (· ++ [x]) htouches) hg' hr
        refine ⟨t', ?_, htouches'⟩
        have hstep : s'.step e = some { w' with log := s'.log ++
            [{ user := e.request.sessionUser s', actor := e.request.actor s', touches := x }]
              } := by
          rw [Frontend.step, hw']
          rfl
        rw [if_pos hactor, Lib.run, hstep]
        exact ht'
      · rw [if_neg hactor]
        refine ih ((mirrors_other hg.1 hm hactor hw).with_log _ s'.log) ?_ hg' hr
        rw [touchesOf_append, if_neg hactor, List.append_nil]
        exact htouches

/-- A frontend that nobody has signed in to. -/
def Frontend.start : Frontend := {}

/--
**Session isolation.** In a run every request has touched its own user's data only,
exactly when each request that is not checked met `OwnSession`. Then, for each
user, the requests of the others can be left out of the run, and what the user's
requests read and write is the same.
-/
theorem isolation {es : List Frontend.Event} (hr : Lib.run Frontend.step .start es = some t) :
    (Lib.Always Frontend.step Isolated .start es ↔ Lib.Guarded Frontend.step OwnSession .start es) ∧
    (Lib.Guarded Frontend.step OwnSession .start es → ∀ u, ∃ t',
      Lib.run Frontend.step .start (requestsOf u .start es) = some t' ∧
        touchesOf u t' = touchesOf u t) := by
  refine ⟨Lib.always_iff_guarded_of_inv (I := Owned) ?_ ?_ ?_ ?_ hr, fun hg u => ?_⟩
  · exact fun s e t hs h => owned_step hs h
  · exact fun s e t hs hi h => isolated_step hs hi h
  · intro u o ho
    cases ho
  · exact fun r hr => absurd hr List.not_mem_nil
  · refine requestsOf_run ⟨.refl u _, ?_, ?_⟩ rfl hg hr
    · intro h
      cases h
    · intro v h
      cases h

/-- A sign-in by the form of the page. -/
def signInEvent (user : Str) : Frontend.Event where
  request :=
    { method := "POST".toList
      path := "/".toList
      message := "username=".toList ++ user ++ "&password=1".toList }

/-- A request for a path, with a session's cookie. -/
def getEvent (user path : Str) : Frontend.Event where
  request :=
    { method := "GET".toList
      path := path
      cookies := [("username".toList, user)] }

/-- Two users sign in; the first lists her files and deletes one. -/
def listThenDelete : List Frontend.Event :=
  [signInEvent "amy".toList, signInEvent "bob".toList, getEvent "amy".toList "/files".toList,
   getEvent "amy".toList "/delete?notes".toList]

theorem listThenDelete_isolated : ∃ t, Lib.run Frontend.step .start listThenDelete = some t ∧
    Lib.Always Frontend.step Isolated .start listThenDelete ∧
    ∀ u, ∃ t', Lib.run Frontend.step .start (requestsOf u .start listThenDelete) = some t' ∧
      touchesOf u t' = touchesOf u t := by
  have hrun : (Lib.run Frontend.step .start listThenDelete).isSome = true := by decide +kernel
  have hg : Lib.Guarded Frontend.step OwnSession .start listThenDelete := by decide +kernel
  obtain ⟨t, ht⟩ := Option.isSome_iff_exists.mp hrun
  exact ⟨t, ht, (isolation ht).1.mpr hg, (isolation ht).2 hg⟩

/-- The same without the list: the deletion works for the user who signed in last. -/
def deleteAtOnce : List Frontend.Event :=
  [signInEvent "amy".toList, signInEvent "bob".toList, getEvent "amy".toList "/delete?notes".toList]

/-- **A request with amy's cookie deletes bob's file.** -/
theorem other_deleted : ∃ t, Lib.run Frontend.step .start deleteAtOnce = some t ∧
    t.log.getLast? = some
      { user := some "amy".toList, actor := some "amy".toList
        touches := [.storage "bob".toList { userName := "bob".toList }
          (.deleteFile "bob".toList "notes".toList)] } ∧
    ¬ Lib.Always Frontend.step Isolated .start deleteAtOnce := by
  have hrun : (Lib.run Frontend.step .start deleteAtOnce).map (·.log.getLast?) = some (some
      { user := some "amy".toList, actor := some "amy".toList
        touches := [.storage "bob".toList { userName := "bob".toList }
          (.deleteFile "bob".toList "notes".toList)] }) := by decide +kernel
  obtain ⟨t, ht, hlast⟩ := Option.map_eq_some_iff.mp hrun
  refine ⟨t, ht, hlast, fun hall => ?_⟩
  have huser := hall.last ht _ (List.mem_of_getLast? hlast) _ List.mem_cons_self "bob".toList
    List.mem_cons_self
  exact absurd huser (by decide)

end PennCloud

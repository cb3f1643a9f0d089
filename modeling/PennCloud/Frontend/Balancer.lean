import PennCloud.Lib.Rotation
import PennCloud.Address

/-!
# The load balancer

The main loop sends each client to the server at the front of a queue and puts
that server to the back. Servers that are not running are put to the back before,
until there is one that is or all have been seen. So the running servers keep
their order among each other, and each client takes the first of them.
-/

namespace PennCloud

open Str

namespace Balancer

/-- A frontend server. -/
structure Server where
  address : Str
  port : Int
  running : Bool := false
  deriving DecidableEq

/-- `address + ":" + to_string(port)`. -/
def Server.location (s : Server) : Str := s.address ++ ':' :: Str.decimal s.port

/-- The answer when no server is running. -/
def unavailable (page : Str) : Str :=
  "HTTP/1.1 200 OK\r\n".toList ++ "Content-type: text/html\r\n".toList ++ crlf ++ page

/-- The answer that sends a client to a server. -/
def redirect (location : Str) : Str :=
  "HTTP/1.1 307 Temporary Redirect\r\n".toList ++ "Location: http://".toList
    ++ location ++ crlf ++ crlf

/-- The loop over the servers that are not running; `count` of them have been put to the back. -/
def skipLoop : Nat → Nat → List Server → Option (Nat × List Server)
  | 0, _, _ => none
  | _, _, [] => none
  | fuel + 1, count, tmp :: servers =>
    if tmp.running then some (count, tmp :: servers)
    else if count + 1 = (servers ++ [tmp]).length then some (count + 1, servers ++ [tmp])
    else skipLoop fuel (count + 1) (servers ++ [tmp])

/-- One client: the answer, and the queue after it. -/
def handleClient (page : Str) (servers : List Server) : Option (Str × List Server) :=
  (skipLoop servers.length 0 servers).bind fun r =>
    if r.1 = r.2.length then some (unavailable page, r.2)
    else match r.2 with
      | [] => none
      | tmp :: rest => some (redirect tmp.location, rest ++ [tmp])

/-- Clients, one after the other. -/
def serve (page : Str) : Nat → List Server → Option (List Str × List Server)
  | 0, servers => some ([], servers)
  | n + 1, servers =>
    (handleClient page servers).bind fun r =>
      (serve page n r.2).map fun t => (r.1 :: t.1, t.2)

/-- The running servers in the order of the queue. -/
def up (servers : List Server) : List Server := servers.filter Server.running

section Loop

variable {page : Str} {s : Server} {servers a b : List Server}

/-- The loop stops at the first server that is running. -/
theorem skipLoop_running (hs : s.running = true) : ∀ {a : List Server} (fuel count : Nat)
    (b : List Server),
    (∀ t ∈ a, t.running = false) → a.length < fuel → count ≤ b.length →
    skipLoop fuel count (a ++ s :: b) = some (count + a.length, s :: (b ++ a))
  | [], fuel + 1, count, b, _, _, _ => by
      rw [List.nil_append, skipLoop, if_pos hs, List.append_nil]
      rfl
  | t :: a, fuel + 1, count, b, ha, hfuel, hcount => by
      have ht : ¬ t.running = true := by
        rw [ha t List.mem_cons_self]
        exact Bool.false_ne_true
      have hmore : ¬ count + 1 = (a ++ s :: b ++ [t]).length := by
        simp only [List.length_append, List.length_cons, List.length_nil]
        omega
      have hback : a ++ s :: b ++ [t] = a ++ s :: (b ++ [t]) := by
        rw [List.append_assoc, List.cons_append]
      rw [List.cons_append, skipLoop, if_neg ht, if_neg hmore, hback,
        skipLoop_running hs fuel (count + 1) (b ++ [t])
          (fun u hu => ha u (List.mem_cons_of_mem _ hu))
          (Nat.lt_of_succ_lt_succ hfuel) (by rw [List.length_append, List.length_singleton]; omega),
        List.append_assoc, List.singleton_append, List.length_cons]
      congr 2
      omega

/-- Without one the queue has gone round. -/
theorem skipLoop_down : ∀ {a : List Server} (fuel count : Nat) (b : List Server), a ≠ [] →
    (∀ t ∈ a, t.running = false) → a.length ≤ fuel → count = b.length →
    skipLoop fuel count (a ++ b) = some (count + a.length, b ++ a)
  | [], _, _, _, hne, _, _, _ => absurd rfl hne
  | t :: a, 0, _, _, _, _, hfuel, _ => absurd hfuel (Nat.not_succ_le_zero _)
  | t :: a, fuel + 1, count, b, _, ha, hfuel, hcount => by
      have ht : ¬ t.running = true := by
        rw [ha t List.mem_cons_self]
        exact Bool.false_ne_true
      rw [List.cons_append, skipLoop, if_neg ht]
      cases a with
      | nil =>
          rw [if_pos (by rw [List.nil_append, List.length_append, List.length_singleton, hcount]),
            List.nil_append]
          rfl
      | cons u a =>
          have hmore : ¬ count + 1 = (u :: a ++ b ++ [t]).length := by
            simp only [List.length_append, List.length_cons, List.length_nil]
            omega
          rw [if_neg hmore, List.append_assoc,
            skipLoop_down fuel (count + 1) (b ++ [t]) (List.cons_ne_nil u a)
              (fun v hv => ha v (List.mem_cons_of_mem _ hv)) (Nat.le_of_succ_le_succ hfuel)
              (by rw [List.length_append, List.length_singleton, hcount]),
            List.append_assoc, List.singleton_append]
          congr 2
          simp only [List.length_cons]
          omega

/-- A client when no server is running. -/
theorem handleClient_down (hne : servers ≠ []) (h : ∀ t ∈ servers, t.running = false) :
    handleClient page servers = some (unavailable page, servers) := by
  have hloop := skipLoop_down servers.length 0 [] hne h le_rfl rfl
  rw [List.append_nil, List.nil_append, Nat.zero_add] at hloop
  rw [handleClient, hloop, Option.bind_some]
  exact if_pos rfl

/-- A client when one is: the first of the running servers takes it and goes behind the others. -/
theorem handleClient_running (hs : s.running = true) (ha : ∀ t ∈ a, t.running = false) :
    handleClient page (a ++ s :: b) = some (redirect s.location, b ++ a ++ [s]) := by
  have hloop := skipLoop_running hs (a ++ s :: b).length 0 b ha
    (by simp only [List.length_append, List.length_cons]; omega) (Nat.zero_le _)
  rw [handleClient, hloop, Option.bind_some]
  refine if_neg ?_
  simp only [List.length_append, List.length_cons]
  omega

theorem up_append (a b : List Server) : up (a ++ b) = up a ++ up b := List.filter_append ..

theorem up_down (h : ∀ t ∈ a, t.running = false) : up a = [] := by
  rw [up, List.filter_eq_nil_iff]
  intro t ht
  rw [h t ht]
  exact Bool.false_ne_true

theorem up_running (hs : s.running = true) (l : List Server) : up (s :: l) = s :: up l :=
  List.filter_cons_of_pos hs

/-- **One client takes the first running server**, and the queue stays a permutation. -/
theorem handleClient_up (page : Str) {x : Server} {l : List Server} (h : up servers = x :: l) :
    ∃ queue, handleClient page servers = some (redirect x.location, queue) ∧
      queue.Perm servers ∧ up queue = l ++ [x] := by
  obtain ⟨a, b, rfl, ha, hs, hb⟩ := List.filter_eq_cons_iff.mp h
  have hdown : ∀ t ∈ a, t.running = false := fun t ht => Bool.eq_false_iff.mpr (ha t ht)
  refine ⟨b ++ a ++ [x], handleClient_running hs hdown, ?_, ?_⟩
  · rw [List.append_assoc]
    refine List.perm_append_comm.trans ?_
    rw [List.append_assoc, List.singleton_append]
  · rw [up_append, up_append, up_down hdown, List.append_nil, up_running hs, up, hb]
    rfl

/-- Clients when no server is running. -/
theorem serve_down (hne : servers ≠ []) (h : ∀ t ∈ servers, t.running = false) (n : Nat) :
    serve page n servers = some (List.replicate n (unavailable page), servers) := by
  induction n with
  | zero => rfl
  | succ n ih =>
      rw [serve, handleClient_down hne h, Option.bind_some, ih]
      rfl

/-- **Clients take the running servers in turn.** -/
theorem serve_up (page : Str) (n : Nat) : ∀ {servers : List Server}, up servers ≠ [] →
    ∃ queue, serve page n servers =
        some ((Lib.fronts (up servers) n).map fun s => redirect s.location, queue) ∧
      queue.Perm servers := by
  induction n with
  | zero =>
      intro servers _
      exact ⟨servers, by rw [Lib.fronts_zero]; rfl, List.Perm.refl _⟩
  | succ n ih =>
      intro servers hne
      obtain ⟨x, l, hup⟩ := List.exists_cons_of_ne_nil hne
      obtain ⟨next, hnext, hperm, hrest⟩ := handleClient_up page hup
      obtain ⟨queue, hqueue, hqperm⟩ := ih (show up next ≠ [] by rw [hrest]; simp)
      refine ⟨queue, ?_, hqperm.trans hperm⟩
      rw [serve, hnext, Option.bind_some, hqueue, hup, Lib.fronts_cons, List.map_cons, hrest]
      rfl

end Loop

/-! ## Whom a client is sent to -/

/-- A text is split in one way at its last separator. -/
theorem last_sep_inj {c : Char} {a b p q : Str} (hp : c ∉ p) (hq : c ∉ q)
    (h : a ++ c :: p = b ++ c :: q) : a = b ∧ p = q := by
  rcases List.append_eq_append_iff.mp h with ⟨d, rfl, hd⟩ | ⟨d, rfl, hd⟩
  · cases d with
    | nil => exact ⟨(List.append_nil a).symm, (List.cons.inj hd).2⟩
    | cons x d =>
        rw [(List.cons.inj hd).2] at hp
        exact absurd (List.mem_append_right _ List.mem_cons_self) hp
  · cases d with
    | nil => exact ⟨List.append_nil b, (List.cons.inj hd).2.symm⟩
    | cons x d =>
        rw [(List.cons.inj hd).2] at hq
        exact absurd (List.mem_append_right _ List.mem_cons_self) hq

/-- The address and the port can be told from the text. -/
theorem Server.location_inj {s t : Server} (h : s.location = t.location) :
    (s.address, s.port) = (t.address, t.port) := by
  have hcolon : ∀ n : Int, ':' ∉ decimal n := fun n => notMem_decimal (by decide) (by decide)
  obtain ⟨haddress, hport⟩ := last_sep_inj (hcolon _) (hcolon _) h
  rw [haddress, decimal_inj hport]

theorem unavailable_text (page : Str) : unavailable page = "HTTP/1.1 200 OK\r\n".toList
    ++ "Content-type: text/html\r\n".toList ++ "\r\n".toList ++ page := by
  have hend : crlf = "\r\n".toList := by decide
  unfold unavailable
  rw [hend]

theorem redirect_text (s : Server) : redirect s.location
    = "HTTP/1.1 307 Temporary Redirect\r\n".toList ++ "Location: http://".toList
      ++ (s.address ++ ':' :: decimal s.port) ++ "\r\n".toList ++ "\r\n".toList := by
  have hend : crlf = "\r\n".toList := by decide
  unfold redirect Server.location
  rw [hend]

theorem redirect_inj {a b : Str} (h : redirect a = redirect b) : a = b :=
  List.append_cancel_left (List.append_cancel_right (List.append_cancel_right h))

/--
**The balancer is a fair round robin**: the queue stays a permutation; with no
server running every client is answered with the page and the order stays; else every
client is sent to a running server, and of as many clients in a row as servers are
running each of these gets one.
-/
theorem serve_fair (page : Str) {servers : List Server} (hne : servers ≠ [])
    (hdistinct : (servers.map fun s => (s.address, s.port)).Nodup) (n : Nat) :
    ∃ replies queue, serve page n servers = some (replies, queue) ∧ replies.length = n ∧
      queue.Perm servers ∧
      ((∀ s ∈ servers, s.running = false) →
        (∀ r ∈ replies,
          r = "HTTP/1.1 200 OK\r\n".toList ++ "Content-type: text/html\r\n".toList
            ++ "\r\n".toList ++ page) ∧
        queue = servers) ∧
      ((∃ s ∈ servers, s.running = true) →
        (∀ r ∈ replies, ∃ s ∈ servers, s.running = true ∧
          r = "HTTP/1.1 307 Temporary Redirect\r\n".toList ++ "Location: http://".toList
            ++ (s.address ++ ':' :: decimal s.port) ++ "\r\n".toList ++ "\r\n".toList) ∧
        ∀ k, k + (servers.filter (·.running)).length ≤ n → ∀ s ∈ servers, s.running = true →
          ((replies.drop k).take (servers.filter (·.running)).length).count
            ("HTTP/1.1 307 Temporary Redirect\r\n".toList ++ "Location: http://".toList
              ++ (s.address ++ ':' :: decimal s.port) ++ "\r\n".toList ++ "\r\n".toList)
            = 1) := by
  have hrunning : servers.filter (·.running) = up servers := rfl
  simp only [← unavailable_text, ← redirect_text, hrunning]
  by_cases hup : up servers = []
  · have hdown : ∀ s ∈ servers, s.running = false := fun s hs =>
      Bool.eq_false_iff.mpr (List.filter_eq_nil_iff.mp hup s hs)
    refine ⟨_, servers, serve_down hne hdown n, List.length_replicate, List.Perm.refl _,
      fun _ => ⟨fun r hr => List.eq_of_mem_replicate hr, rfl⟩, ?_⟩
    rintro ⟨s, hs, hrunning⟩
    rw [hdown s hs] at hrunning
    exact absurd hrunning Bool.false_ne_true
  · obtain ⟨queue, hserve, hperm⟩ := serve_up page n hup
    refine ⟨_, queue, hserve, ?_, hperm, fun hdown => absurd (up_down hdown) hup, fun _ => ⟨?_, ?_⟩⟩
    · rw [List.length_map, Lib.length_fronts hup]
    · intro r hr
      obtain ⟨s, hs, rfl⟩ := List.mem_map.mp hr
      obtain ⟨hmem, hrunning⟩ := List.mem_filter.mp (Lib.mem_of_mem_fronts hs)
      exact ⟨s, hmem, hrunning, rfl⟩
    · intro k hk s hs hrunning
      have hlocations : ((up servers).map fun t => redirect t.location).Nodup := by
        have hsub : ((up servers).map fun t => (t.address, t.port)).Nodup :=
          hdistinct.sublist (List.filter_sublist.map _)
        rw [List.Nodup, List.pairwise_map] at hsub ⊢
        exact hsub.imp fun hne he => hne (Server.location_inj (redirect_inj he))
      rw [← List.map_drop, ← List.map_take, Lib.window_fronts hk]
      refine List.count_eq_one_of_mem ?_ ?_
      · exact (((up servers).rotate_perm k).map _).nodup_iff.mpr hlocations
      · exact List.mem_map_of_mem (List.mem_rotate.mpr (List.mem_filter.mpr ⟨hs, hrunning⟩))

/-- Three servers, the second not running, and four clients. -/
theorem threeServers_fair :
    let servers : List Server :=
      [⟨"a".toList, 1, true⟩, ⟨"b".toList, 2, false⟩, ⟨"c".toList, 3, true⟩]
    ∃ replies queue, serve "503".toList 4 servers = some (replies, queue) ∧ replies.length = 4 ∧
      queue.Perm servers ∧ ∀ s ∈ servers, s.running = true →
        ((replies.drop 1).take 2).count ("HTTP/1.1 307 Temporary Redirect\r\n".toList
          ++ "Location: http://".toList ++ (s.address ++ ':' :: decimal s.port)
          ++ "\r\n".toList ++ "\r\n".toList) = 1 := by
  obtain ⟨replies, queue, hserve, hlength, hperm, -, hup⟩ := @serve_fair "503".toList
    [⟨"a".toList, 1, true⟩, ⟨"b".toList, 2, false⟩, ⟨"c".toList, 3, true⟩]
    (by decide) (by decide) 4
  exact ⟨replies, queue, hserve, hlength, hperm, (hup (by decide)).2 1 (by decide)⟩

end Balancer

end PennCloud

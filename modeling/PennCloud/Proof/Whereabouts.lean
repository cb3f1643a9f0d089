import PennCloud.Master.Commands
import PennCloud.Storage.Failover
import PennCloud.Store.Transfer

/-!
# Finding a server

A `Storage` asks the master for the server of its user, when it is made and when
its server has crashed, and a replica that recovers asks for the primary of its
node. What they get is the primary of that node as the master has it at that
moment, read back from the text of the reply. Promotions come in between. A request
is handled in one turn here, so that no two workers find the same user new.

Each promotion begins a new term of its node. The users of a node stay with it,
and in a term all who ask for its primary are sent to the same replica.
-/

namespace PennCloud

open Str

/-! ## The questions -/

/-- `char message[100]`, put together by `strcat`; `none` where the user's name is too
long for it. -/
def whereMessage (user : Str) : Option Str :=
  let message := "Where <".toList ++ cstr user ++ ">\r\n".toList
  if 100 ≤ message.length then none else some message

/-- The request of `recoverProcess`. -/
def primaryRequest (nodeID : Nat) : Str := "PRIMARY ".toList ++ decimal nodeID ++ crlf

/-! ## The answers -/

/-- `masterConnect::do_read`, with what `read` puts into `buf`; a full one has no zero behind it. -/
def masterReply : Str → List Str → Option Str
  | _, [] => none
  | complete, buf :: reads =>
    if 100 ≤ buf.length then none
    else if crlf <:+: complete ++ cstr buf then some (complete ++ cstr buf)
    else masterReply (complete ++ cstr buf) reads

/-- The loop of `masterConnect::sendto_backend`: where it stops, and the last `<` before. -/
def bracketLoop : Str → Nat → Nat → Nat × Nat
  | [], i, j => (i, j)
  | c :: s, i, j => if c = '>' then (i, j) else bracketLoop s (i + 1) (if c = '<' then i else j)

/-- The address that `masterConnect::sendto_backend` returns. -/
def bracketed (response : Str) : Str :=
  let r := bracketLoop response 0 0
  response.substr ((r.2 : Int) + 1) ((r.1 : Int) - r.2 - 1)

/-- The address that `server_recover` connects to; `none` where `substr` throws. -/
def sessionAddr (addr : Str) : Option Addr :=
  let i := (addr.takeWhile (· ≠ ':')).length
  if addr.length < i + 1 then none
  else some { inetPton zeroAddr (addr.take i) with port := htons (atoi (addr.drop (i + 1))) }

/-- The address in the answer to `recoverProcess`. -/
def primaryIn (response : Str) : Option Str :=
  if response.substr 0 (response.find [' ']) = "+OK".toList then
    some (response.substr (response.find [' '] + 1)
      (response.find crlf - response.find [' '] - 1))
  else none

/-! ## The master and those who ask -/

/-- An answer: who has asked, about which node, in which of its terms, and the address. -/
structure Located where
  /-- The user of a `Storage`. -/
  user : Option Str
  node : Nat
  term : Nat
  addr : Addr

structure Whereabouts where
  master : Master
  /-- The promotions of each node so far. -/
  terms : Nat → Nat := fun _ => 0
  log : List Located := []

inductive WhereaboutsAction
  /-- The heartbeat thread comes to node `i`: whether its write succeeds, and who accepts. -/
  | heartbeat (i : Nat) (alive : Bool) (accepts : Addr → Bool)
  /-- The constructor of a `Storage`, or `server_recover`. -/
  | locate (user : Str) (ask answer : Delivery)
  /-- A replica of node `i` recovers; the number is an `int`. -/
  | askPrimary (i : Fin (2 ^ 31)) (ask answer : Delivery)

namespace Whereabouts

variable (alive : Nat → Nat → Bool)

/-- A request on a connection of its own, and the replies. -/
def exchange (m : Master) (d : Delivery) (message : Str) : Option (Master × Str) :=
  (MasterWorker.round alive m { task := (d.cut message).map .data }).map fun r => (r.1, r.2.2)

/-- The master as `init` leaves it. -/
def start (nodes : List MasterNode) : Whereabouts where
  master := { nodesList := nodes.map fun n => (n, 0) }

def step (s : Whereabouts) : WhereaboutsAction → Option Whereabouts
  | .heartbeat i alive accepts => (s.master.heartbeat i alive accepts).map fun m => { s with
      master := m
      terms := if (s.master.node i).bind (·.promotes alive accepts) = none then s.terms
        else Function.update s.terms i (s.terms i + 1) }
  | .locate user ask answer =>
    (whereMessage user).bind fun message => (exchange alive s.master ask message).bind fun r =>
      (masterReply [] (answer.cut r.2)).bind fun reply =>
        (sessionAddr (bracketed reply)).map fun addr =>
        let node := (r.1.nodeIndex.lookup user).getD 0
        { s with master := r.1, log := ⟨some user, node, s.terms node, addr⟩ :: s.log }
  | .askPrimary i ask answer =>
    (exchange alive s.master ask (primaryRequest i)).bind fun r =>
      (contactServer ((answer.cut r.2).map .data)).toOption.bind fun response =>
        (primaryIn response.1).bind fun text => (stringToIp zeroAddr text).toOption.map fun addr =>
          { s with master := r.1, log := ⟨none, i, s.terms i, addr⟩ :: s.log }

end Whereabouts

/-- A user whose name is read back as it was written. -/
structure PlainUser (user : Str) : Prop where
  name : Name user
  noNul : '\x00' ∉ user

/-- **Those who ask agree about the nodes and their primaries.** -/
structure Agreed (s : Whereabouts) : Prop where
  /-- A user stays with its node. -/
  home : ∀ l ∈ s.log, ∀ user ∈ l.user, s.master.nodeIndex.lookup user = some l.node
  /-- A node has one primary in a term. -/
  term : ∀ l ∈ s.log, ∀ l' ∈ s.log, l.node = l'.node → l.term = l'.term → l.addr = l'.addr
  /-- In the last term it is the one the master has now. -/
  current : ∀ l ∈ s.log, l.term = s.terms l.node →
    ∃ n ∈ s.master.node l.node, n.primaryAddr = l.addr
  /-- At any time it is one of the node's replicas. -/
  replica : ∀ l ∈ s.log, ∃ n ∈ s.master.node l.node, l.addr ∈ n.repAddrs

/-! ## What is written is read -/

section Texts

variable {user l : Str} {x : Addr} {reads : List Str}

theorem isLine_where (h : PlainUser user) :
    IsLine ("Where <".toList ++ user ++ ">\r\n".toList) := by
  refine ⟨"Where ".toList ++ '<' :: (user ++ ['>']), by simp [crlf], ?_⟩
  have hend : ¬ crlf <:+: user ++ '>' :: [] := by
    rw [Lib.infix_mid (by decide)]
    exact not_or.mpr ⟨h.name.noCrlf, by decide⟩
  rw [Lib.infix_mid (by decide)]
  exact not_or.mpr ⟨by decide, hend⟩

theorem angled_where (h : PlainUser user) :
    angled ("Where <".toList ++ user ++ ">\r\n".toList) = user := by
  have hfield := angled_field (a := "Where ".toList) (f := user) crlf (by decide)
    (by decide) h.name.noAngle
  have htext : "Where <".toList ++ user ++ ">\r\n".toList
      = "Where ".toList ++ '<' :: user ++ '>' :: crlf := by simp [crlf]
  rw [htext, hfield]

/-- A line is read whole, in however many reads. -/
theorem masterReply_line (hl : IsLine l) (hnul : '\x00' ∉ l) (hlen : l.length < 100) :
    ∀ {reads : List Str} {complete : Str}, complete ++ reads.flatten = l → [] ∉ reads →
      ¬ crlf <:+: complete → masterReply complete reads = some l
  | [], complete, hcut, _, hno => by
      rw [List.flatten_nil, List.append_nil] at hcut
      obtain ⟨a, rfl, -⟩ := hl
      exact absurd (hcut ▸ (List.suffix_append a crlf).isInfix) hno
  | buf :: reads, complete, hcut, hne, hno => by
      rw [List.flatten_cons, ← List.append_assoc] at hcut
      have hfree : '\x00' ∉ buf := fun h =>
        hnul (hcut ▸ List.mem_append_left _ (List.mem_append_right _ h))
      have hfits : ¬ 100 ≤ buf.length := by
        have := congrArg List.length hcut
        simp only [List.length_append] at this
        omega
      rw [masterReply, if_neg hfits, cstr_eq hfree]
      rcases line_split hl (hcut.trans (List.append_nil l).symm)
        with ⟨hends, x, hx, hnil⟩ | ⟨hmore, -⟩
      · rw [if_pos hends, hx, (List.append_eq_nil_iff.mp hnil.symm).1, List.append_nil]
      · rw [if_neg hmore]
        exact masterReply_line hl hnul hlen hcut (fun h => hne (List.mem_cons_of_mem _ h)) hmore

theorem length_ipToString (x : Addr) : (ipToString x).length < 80 := by
  have hdec : ∀ n : Nat, n < 65536 → (decimal n).length ≤ 5 := fun n hn =>
    (Nat.length_toDigits_le_iff (by decide) (by decide)).mpr (by omega)
  have ha := hdec x.a (by omega)
  have hb := hdec x.b (by omega)
  have hc := hdec x.c (by omega)
  have hd := hdec x.d (by omega)
  have hport := hdec x.port (by omega)
  simp only [ipToString, List.length_append, List.length_cons]
  omega

theorem isLine_of_noCr {a : Str} (h : '\r' ∉ a) : IsLine (a ++ crlf) :=
  ⟨a, rfl, fun hin => h (hin.subset (show '\r' ∈ crlf by decide))⟩

theorem notMem_address {c : Char} (x : Addr) (hd : c.isDigit = false) (hc : c ∉ ['-', '.', ':']) :
    c ∉ ipToString x := by
  simp only [List.mem_cons, List.not_mem_nil, or_false, not_or] at hc
  exact notMem_ipToString hd hc.1 hc.2.1 hc.2.2

theorem isLine_server (x : Addr) : IsLine (serverLine x) := by
  have hline : serverLine x = kwSERVER ++ ' ' :: '<' :: (ipToString x ++ ['>']) ++ crlf := by
    simp [serverLine]
  rw [hline]
  refine isLine_of_noCr ?_
  simp [kwSERVER, notMem_address x]

theorem serverLine_noNul (x : Addr) : '\x00' ∉ serverLine x := by
  simp [serverLine, kwSERVER, crlf, notMem_address x]

theorem length_serverLine (x : Addr) : (serverLine x).length < 100 := by
  have hip := length_ipToString x
  simp only [serverLine, kwSERVER, crlf, List.length_append, List.length_cons, List.length_nil]
  omega

theorem bracketLoop_free {a : Str} (s : Str) (hlt : '<' ∉ a) (hgt : '>' ∉ a) (i j : Nat) :
    bracketLoop (a ++ s) i j = bracketLoop s (i + a.length) j := by
  induction a generalizing i with
  | nil => rfl
  | cons c a ih =>
      rw [List.mem_cons, not_or] at hlt hgt
      rw [List.cons_append, bracketLoop, if_neg (Ne.symm hgt.1),
        if_neg (Ne.symm hlt.1), ih hlt.2 hgt.2, List.length_cons, Nat.add_right_comm, Nat.add_assoc]

/-- **The loop finds the brackets.** -/
theorem bracketed_field {a f : Str} (rest : Str) (ha : '<' ∉ a ∧ '>' ∉ a) (hf : '<' ∉ f ∧ '>' ∉ f) :
    bracketed (a ++ '<' :: f ++ '>' :: rest) = f := by
  have hloop : bracketLoop (a ++ '<' :: f ++ '>' :: rest) 0 0
    = (a.length + 1 + f.length, a.length) := by
    rw [List.append_assoc, bracketLoop_free _ ha.1 ha.2, List.cons_append, bracketLoop,
      if_neg (by decide), if_pos rfl, bracketLoop_free _ hf.1 hf.2, bracketLoop,
      if_pos rfl, Nat.zero_add]
  have hlen : (((a.length + 1 + f.length : Nat) : Int)) - (a.length : Nat) - 1
      = (a ++ '<' :: f).length - (a.length + 1) := by
    rw [List.length_append, List.length_cons]
    omega
  rw [bracketed, hloop]
  show substr _ ((a.length : Int) + 1) _ = f
  rw [hlen]
  exact substr_between a '<' f ('>' :: rest)

/-- **The address in a reply to `WHERE`.** -/
theorem sessionAddr_server (x : Addr) : sessionAddr (bracketed (serverLine x)) = some x := by
  have hline : serverLine x = (kwSERVER ++ [' ']) ++ '<' :: ipToString x ++ '>' :: crlf := by
    simp [serverLine]
  have hip : (ipToString x).takeWhile (· ≠ ':') = x.ip := by
    have hfree : ∀ c ∈ x.ip, decide (c ≠ ':') = true := fun c hc =>
      decide_eq_true fun he => colon_notMem_ip x (he ▸ hc)
    rw [ipToString_eq, List.takeWhile_append_of_pos hfree, List.takeWhile_cons_of_neg (by decide),
      List.append_nil]
  have hlen : ¬ (ipToString x).length < x.ip.length + 1 := by
    rw [ipToString_eq, List.length_append, List.length_cons]
    omega
  have hport : (ipToString x).drop (x.ip.length + 1) = decimal x.port := by
    rw [ipToString_eq, List.append_cons]
    exact List.drop_left' (by rw [List.length_append]; rfl)
  have hhead : (ipToString x).take x.ip.length = x.ip := by
    rw [ipToString_eq]
    exact List.take_left' rfl
  rw [hline, bracketed_field crlf (by decide) ⟨notMem_address x (by decide) (by decide),
    notMem_address x (by decide) (by decide)⟩]
  simp only [sessionAddr, hip, if_neg hlen, hport, hhead, inetPton_ip, atoi_decimal, htons_port]

theorem primaryIn_line (x : Addr) :
    primaryIn ("+OK ".toList ++ ipToString x ++ crlf) = some (ipToString x) := by
  have hline : "+OK ".toList ++ ipToString x ++ crlf = "+OK".toList ++ ' '
    :: ipToString x ++ crlf := rfl
  have hspace : find ("+OK".toList ++ ' ' :: ipToString x ++ crlf) [' '] = "+OK".toList.length := by
    rw [List.append_assoc]
    exact find_sep _ (by decide)
  have hcr : '\r' ∉ "+OK".toList ++ ' ' :: ipToString x := by simp [notMem_address x]
  have hcrlf : find ("+OK".toList ++ ' ' :: ipToString x ++ crlf) crlf
      = ("+OK".toList ++ ' ' :: ipToString x).length := by
    refine find_of_firstIdx ?_
    rw [crlf, Lib.firstIdx_skip _ hcr, Lib.firstIdx_zero (List.prefix_refl _)]
    rfl
  have hhead : substr ("+OK".toList ++ ' ' :: ipToString x ++ crlf) 0 "+OK".toList.length
    = "+OK".toList := by
    rw [List.append_assoc]
    exact substr_middle [] "+OK".toList _ rfl rfl
  rw [primaryIn, hline, hspace, hcrlf, if_pos hhead, Int.sub_sub]
  exact congrArg some (substr_between "+OK".toList ' ' (ipToString x) crlf)

end Texts

/-! ## A question and its answer -/

section Exchanges

variable {alive : Nat → Nat → Bool} {m m' : Master} {d ask answer : Delivery}
  {message reply user : Str}
  {on : Bool} {rows : List Str}

theorem exchange_line (hl : IsLine message) (hnul : '\x00' ∉ message)
    (hlen : message.length < rlenMaster)
    (h : m.handle alive message = some (m', on, reply)) :
    Whereabouts.exchange alive m d message = some (m', reply) := by
  have hround : MasterWorker.round alive m { task := (d.cut message).map .data } = _ :=
    MasterWorker.round_line [] hl hnul hlen (d.whole message)
      (d.nonempty message) rfl (by rw [List.append_nil]) h
  rw [Whereabouts.exchange, hround]
  rfl

theorem masterVerb_where (user : Str) :
    masterVerb ("Where <".toList ++ user ++ ">\r\n".toList) = .whereIs := rfl

theorem masterVerb_primary (i : Nat) : masterVerb (primaryRequest i) = .primary := rfl

/-- **A user's server** is the primary of the node that the user is on now. -/
theorem locate_spec (alive : Nat → Nat → Bool) (ask answer : Delivery) {s : Whereabouts}
    (hm : s.master.Placing rows) (hne : s.master.nodesList ≠ [])
    (hu : PlainUser user) (hlen : user.length < 90) : ∃ m' i n,
      s.step alive (.locate user ask answer) = some { s with
        master := m', log := ⟨some user, i, s.terms i, n.primaryAddr⟩ :: s.log } ∧
      s.master.node i = some n ∧ m'.nodeIndex.lookup user = some i ∧ m'.Placing (rows ++ [user]) ∧
      m'.node = s.master.node ∧
      ∀ row k, s.master.nodeIndex.lookup row = some k → m'.nodeIndex.lookup row = some k := by
  have hlength : ("Where <".toList ++ user ++ ">\r\n".toList).length = user.length + 10 := by
    rw [List.length_append, List.length_append, Nat.add_right_comm, Nat.add_comm _ user.length]
    rfl
  have hmessage : whereMessage user = some ("Where <".toList ++ user ++ ">\r\n".toList) := by
    rw [whereMessage, cstr_eq hu.noNul]
    exact if_neg (by rw [hlength]; omega)
  have hnul : '\x00' ∉ "Where <".toList ++ user ++ ">\r\n".toList := by simp [hu.noNul]
  obtain ⟨m', i, n, hwhere, hn, hhome, hplacing, hnode, hkept⟩ :=
    Master.parseWHERE_spec hm hne ("Where <".toList ++ user ++ ">\r\n".toList)
  rw [angled_where hu] at hhome hplacing
  have hhandle : s.master.handle alive ("Where <".toList ++ user ++ ">\r\n".toList)
      = some (m', true, serverLine n.1.primaryAddr) := by
    rw [Master.handle, masterVerb_where, hwhere]
    rfl
  have hexchange := exchange_line (d := ask) (isLine_where hu) hnul
    (by rw [hlength, rlenMaster]; omega) hhandle
  have hreply : masterReply [] (answer.cut (serverLine n.1.primaryAddr))
    = some (serverLine n.1.primaryAddr) :=
    masterReply_line (isLine_server _) (serverLine_noNul _) (length_serverLine _) (answer.whole _)
      (answer.nonempty _) (by decide)
  refine ⟨m', i, n.1, ?_, ?_, hhome, hplacing, hnode, hkept⟩
  · simp only [Whereabouts.step, hmessage, hexchange, hreply, sessionAddr_server, hhome,
      Option.bind_some, Option.map_some, Option.getD_some]
  · rw [Master.node, hn]
    rfl

theorem length_primaryRequest {i : Nat} (hi : i < 2 ^ 31) :
    (primaryRequest i).length < rlenMaster := by
  have hdec : (decimal (i : Nat)).length ≤ 10 :=
    (Nat.length_toDigits_le_iff (by decide) (by decide)).mpr (by omega)
  have hlen : (primaryRequest i).length = "PRIMARY ".toList.length
    + (decimal (i : Nat)).length + 2 := by
    show ("PRIMARY ".toList ++ decimal (i : Nat) ++ crlf).length = _
    rw [List.length_append, List.length_append]
    rfl
  have hkw : "PRIMARY ".toList.length = 8 := by decide
  rw [hlen, rlenMaster]
  omega

theorem primaryRequest_noNul (i : Nat) : '\x00' ∉ primaryRequest i := by
  have hdec : '\x00' ∉ decimal (i : Nat) := notMem_decimal (by decide) (by decide)
  show '\x00' ∉ "PRIMARY ".toList ++ decimal (i : Nat) ++ crlf
  rw [List.mem_append, List.mem_append, not_or, not_or]
  exact ⟨⟨by decide, hdec⟩, by decide⟩

theorem isLine_primaryRequest (i : Nat) : IsLine (primaryRequest i) := by
  have hcr : '\r' ∉ decimal i := notMem_decimal (by decide) (by decide)
  exact isLine_of_noCr (a := "PRIMARY ".toList ++ decimal i) (by simp [hcr])

/-- The number in the request is read back. -/
theorem parsePRIMARY_request (m : Master) (i : Fin (2 ^ 31)) : m.parsePRIMARY (primaryRequest i)
    = some ((m.nodesList[i.val]?).elim "-ERR\r\n".toList fun n =>
        "+OK ".toList ++ ipToString n.1.primaryAddr ++ crlf) := by
  have hline : primaryRequest i = "PRIMARY".toList ++ ' ' :: decimal i ++ crlf := rfl
  have hspace : find ("PRIMARY".toList ++ ' ' :: decimal i ++ crlf)
    [' '] = "PRIMARY".toList.length := by
    rw [List.append_assoc]
    exact find_sep _ (by decide)
  have hfree : '\r' ∉ decimal i := notMem_decimal (by decide) (by decide)
  have hcrlf : find ("PRIMARY".toList ++ ' ' :: decimal i ++ crlf) crlf
      = ("PRIMARY".toList ++ ' ' :: decimal i).length := by
    refine find_of_firstIdx ?_
    rw [crlf, Lib.firstIdx_skip _ (by simp [hfree]), Lib.firstIdx_zero (List.prefix_refl _)]
    rfl
  have hnumber : atoi (substr (primaryRequest i) (find (primaryRequest i) [' '] + 1)
      (find (primaryRequest i) crlf - (find (primaryRequest i) [' '] + 1))) = i := by
    rw [hline, hspace, hcrlf, substr_between "PRIMARY".toList ' ' (decimal i) crlf, atoi_decimal]
  have hint : asInt (i.val : Int) = some (i.val : Int) := asInt_some.mpr ⟨rfl, by omega, by omega⟩
  rw [Master.parsePRIMARY]
  simp only [hnumber, hint, Option.map_some, if_pos (Int.natCast_nonneg i.val), Int.toNat_natCast]

/-- **A node's primary** is the one that the master has now. -/
theorem askPrimary_spec {s t : Whereabouts} {i : Fin (2 ^ 31)}
    (h : s.step alive (.askPrimary i ask answer) = some t) : ∃ n, s.master.node i = some n ∧
      t = { s with log := ⟨none, i, s.terms i, n.primaryAddr⟩ :: s.log } := by
  have hhandle : s.master.handle alive (primaryRequest i)
      = some (s.master, true, (s.master.nodesList[i.val]?).elim "-ERR\r\n".toList fun n =>
          "+OK ".toList ++ ipToString n.1.primaryAddr ++ crlf) := by
    rw [Master.handle, masterVerb_primary, parsePRIMARY_request]
    rfl
  rw [Whereabouts.step, exchange_line (d := ask) (isLine_primaryRequest i) (primaryRequest_noNul i)
      (length_primaryRequest i.isLt) hhandle, Option.bind_some] at h
  have hread : ∀ l : Str, IsLine l → '\x00' ∉ l → l.length < rlenTransfer →
      contactServer ((answer.cut l).map .data) = .ok (l, []) := by
    intro l hl hnul hlen
    have hread := doRead_line [] hl hnul hlen (answer.whole l) (answer.nonempty l)
    rw [List.append_nil] at hread
    rw [contactServer, hread]
    exact congrArg (fun x => Except.ok (x, [])) (cstr_eq hnul)
  rw [Master.node]
  cases hn : s.master.nodesList[(i : Nat)]? with
  | none =>
      simp only [hn, Option.elim] at h
      rw [show "-ERR\r\n".toList = "-ERR".toList ++ crlf from rfl,
        hread _ (isLine_of_noCr (by decide)) (by decide) (by decide)] at h
      cases h
  | some n =>
      simp only [hn, Option.elim] at h
      have hip := length_ipToString n.1.primaryAddr
      have hlen : ("+OK ".toList ++ ipToString n.1.primaryAddr ++ crlf).length < rlenTransfer := by
        have hends : "+OK ".toList.length = 4 ∧ crlf.length = 2 := ⟨rfl, rfl⟩
        rw [List.length_append, List.length_append, rlenTransfer]
        omega
      rw [hread _ (isLine_of_noCr (by simp [notMem_address]))
        (by simp [crlf, notMem_address]) hlen] at h
      simp only [Except.toOption, Option.bind_some, primaryIn_line, isAddr_ipToString _ zeroAddr,
        Option.map_some, Option.some.injEq] at h
      exact ⟨n.1, rfl, h.symm⟩

end Exchanges

/-! ## Runs -/

section Runs

variable {alive : Nat → Nat → Bool} {s t : Whereabouts}

/-- What every action keeps. -/
structure Whereabouts.Inv (s : Whereabouts) : Prop where
  placing : ∃ rows, s.master.Placing rows
  nonempty : s.master.nodesList ≠ []
  primary : ∀ i n, s.master.node i = some n → n.primaryAddr ∈ n.repAddrs
  agreed : Agreed s
  past : ∀ l ∈ s.log, l.term ≤ s.terms l.node

/-- **An answer** is about a node as it is now. -/
theorem Whereabouts.Inv.answered (hs : s.Inv) {m : Master} {user : Option Str} {i : Nat}
    {n : MasterNode}
    (hplacing : ∃ rows, m.Placing rows) (hne : m.nodesList ≠ []) (hnode : m.node = s.master.node)
    (hn : s.master.node i = some n) (huser : ∀ u ∈ user, m.nodeIndex.lookup u = some i)
    (hkept : ∀ row k, s.master.nodeIndex.lookup row = some k → m.nodeIndex.lookup row = some k) :
    Inv { s with master := m, log := ⟨user, i, s.terms i, n.primaryAddr⟩ :: s.log } where
  placing := hplacing
  nonempty := hne
  primary := by
    rw [hnode]
    exact hs.primary
  agreed := by
    -- who has asked in the term that is not over has got the same answer
    have hnow : ∀ l ∈ s.log, l.node = i → l.term = s.terms i → l.addr = n.primaryAddr := by
      rintro l hl rfl hterm
      obtain ⟨n', hn', haddr⟩ := hs.agreed.current l hl hterm
      rw [← haddr, Option.some.inj (hn.symm.trans hn')]
    refine ⟨fun l hl u hu => ?_, fun l hl l' hl' hsame hterm => ?_, fun l hl hterm =>
      ?_, fun l hl => ?_⟩
    · rcases List.mem_cons.mp hl with rfl | hl
      · exact huser u hu
      · exact hkept u l.node (hs.agreed.home l hl u hu)
    · rcases List.mem_cons.mp hl with rfl | hl <;> rcases List.mem_cons.mp hl' with rfl | hl'
      · rfl
      · exact (hnow l' hl' hsame.symm hterm.symm).symm
      · exact hnow l hl hsame hterm
      · exact hs.agreed.term l hl l' hl' hsame hterm
    · show ∃ n ∈ m.node l.node, n.primaryAddr = l.addr
      rw [hnode]
      rcases List.mem_cons.mp hl with rfl | hl
      · exact ⟨n, hn, rfl⟩
      · exact hs.agreed.current l hl hterm
    · show ∃ n ∈ m.node l.node, l.addr ∈ n.repAddrs
      rw [hnode]
      rcases List.mem_cons.mp hl with rfl | hl
      · exact ⟨n, hn, hs.primary i n hn⟩
      · exact hs.agreed.replica l hl
  past l hl := by
    rcases List.mem_cons.mp hl with rfl | hl
    · exact Nat.le_refl _
    · exact hs.past l hl

/-- **A heartbeat** begins a term, or leaves the primary. -/
theorem Whereabouts.Inv.heartbeat (hs : s.Inv) {i : Nat} {write : Bool} {accepts : Addr → Bool}
    (h : s.step alive (.heartbeat i write accepts) = some t) : t.Inv := by
  obtain ⟨m, hm, rfl⟩ := Option.map_eq_some_iff.mp h
  obtain ⟨n, hn, hnode, hindex, hlen⟩ := Master.heartbeat_node hm
  obtain ⟨rows, hplacing⟩ := hs.placing
  obtain ⟨hreps, hprimary⟩ := n.heartbeat_primary write accepts
  rw [hn, Option.bind_some]
  have hother : ∀ {j}, j ≠ i → m.node j = s.master.node j := fun hj => by
    rw [hnode, Function.update_of_ne hj]
  have hself : m.node i = some (n.heartbeat write accepts).1 := by rw [hnode, Function.update_self]
  have hterm : ∀ j, s.terms j ≤ (if n.promotes write accepts = none then s.terms
      else Function.update s.terms i (s.terms i + 1)) j := by
    intro j
    split
    · exact Nat.le_refl _
    · rw [Function.update_apply]
      split
      · rename_i hj
        exact hj ▸ Nat.le_succ _
      · exact Nat.le_refl _
  refine ⟨⟨rows, Master.placing_heartbeat hplacing hm⟩, ?_, fun j n' hn' => ?_, ?_, fun l hl => ?_⟩
  · intro hnil
    exact hs.nonempty (List.length_eq_zero_iff.mp (hlen ▸ List.length_eq_zero_iff.mpr hnil))
  · by_cases hj : j = i
    · rw [hj, hself] at hn'
      cases hn'
      rw [hreps, hprimary]
      cases hp : n.promotes write accepts with
      | none => exact hs.primary i n hn
      | some p => exact MasterNode.promotes_mem hp
    · exact hs.primary j n' (hother hj ▸ hn')
  · refine ⟨fun l hl u hu => ?_, hs.agreed.term, fun l hl hlast => ?_, fun l hl => ?_⟩
    · show m.nodeIndex.lookup u = _
      rw [hindex]
      exact hs.agreed.home l hl u hu
    · have hpast := hs.past l hl
      by_cases hj : l.node = i
      · cases hp : n.promotes write accepts with
        | none =>
            simp only [hp, if_true] at hlast
            obtain ⟨n', hn', haddr⟩ := hs.agreed.current l hl hlast
            obtain rfl : n = n' := Option.some.inj (hn.symm.trans (hj ▸ hn'))
            refine ⟨_, hj ▸ hself, ?_⟩
            rw [hprimary, hp]
            exact haddr
        | some p =>
            -- the term of the answer is over
            simp only [hp, reduceCtorEq, if_false, hj, Function.update_self] at hlast hpast
            omega
      · have hlast' : l.term = s.terms l.node := by
          refine Eq.trans hlast ?_
          split
          · rfl
          · exact Function.update_of_ne hj _ _
        obtain ⟨n', hn', haddr⟩ := hs.agreed.current l hl hlast'
        exact ⟨n', (hother hj).trans hn', haddr⟩
    · obtain ⟨n', hn', haddr⟩ := hs.agreed.replica l hl
      by_cases hj : l.node = i
      · refine ⟨_, hj ▸ hself, ?_⟩
        obtain rfl : n = n' := Option.some.inj (hn.symm.trans (hj ▸ hn'))
        rwa [hreps]
      · exact ⟨n', (hother hj).trans hn', haddr⟩
  · exact Nat.le_trans (hs.past l hl) (hterm l.node)

theorem Master.nodesList_ne {m m' : Master} (h : m'.node = m.node) (hne : m.nodesList ≠ []) :
    m'.nodesList ≠ [] := by
  intro hnil
  have hnone : m'.node 0 = none := by rw [node, hnil]; rfl
  rw [h, node, Option.map_eq_none_iff] at hnone
  exact hne (List.length_eq_zero_iff.mp (Nat.le_zero.mp (List.getElem?_eq_none_iff.mp hnone)))

/-- Who asks for a user's server, asks for one with a plain name. -/
def WhereaboutsAction.Plain : WhereaboutsAction → Prop
  | .locate user _ _ => PlainUser user
  | .heartbeat _ _ _ | .askPrimary _ _ _ => True

theorem whereMessage_length {user message : Str} (hu : PlainUser user)
    (h : whereMessage user = some message) :
    user.length < 90 := by
  rw [whereMessage, cstr_eq hu.noNul] at h
  split at h
  · cases h
  · rename_i hlen
    rw [List.length_append, List.length_append] at hlen
    have hkw : "Where <".toList.length = 7 ∧ ">\r\n".toList.length = 3 := ⟨rfl, rfl⟩
    omega

theorem Whereabouts.inv_step {a : WhereaboutsAction} (hs : s.Inv) (ha : a.Plain)
    (h : s.step alive a = some t) : t.Inv := by
  obtain ⟨rows, hplacing⟩ := hs.placing
  cases a with
  | heartbeat i write accepts => exact hs.heartbeat h
  | locate user ask answer =>
      obtain ⟨message, hmessage, -⟩ := Option.bind_eq_some_iff.mp h
      obtain ⟨m, i, n, heq, hn, hhome, hplacing', hnode, hkept⟩ :=
        locate_spec alive ask answer hplacing hs.nonempty ha
        (whereMessage_length ha hmessage)
      obtain rfl := Option.some.inj (heq.symm.trans h)
      refine hs.answered ⟨_, hplacing'⟩ (Master.nodesList_ne hnode hs.nonempty) hnode hn ?_ hkept
      rintro u ⟨⟩
      exact hhome
  | askPrimary i ask answer =>
      obtain ⟨n, hn, rfl⟩ := askPrimary_spec h
      exact hs.answered ⟨rows, hplacing⟩ hs.nonempty rfl hn (fun u hu => by cases hu)
        fun _ _ hk => hk

/-- What `init` reads: the primary of each node is its first replica. -/
theorem masterLines_primary {addr : Addr} : ∀ {lines : List Str} {nodes : List MasterNode},
    masterLines addr lines = .ok nodes → ∀ n ∈ nodes, n.primaryAddr ∈ n.repAddrs
  | [], nodes, h => by
      cases h
      exact fun n hn => absurd hn List.not_mem_nil
  | line :: lines, nodes, h => by
      obtain ⟨x, -, h⟩ := halt_bind_ok h
      obtain ⟨xs, -, h⟩ := halt_bind_ok h
      obtain ⟨ns, hns, h⟩ := halt_bind_ok h
      cases h
      exact List.forall_mem_cons.mpr ⟨List.mem_cons_self, masterLines_primary hns⟩

theorem Whereabouts.inv_start {nodes : List MasterNode} (hne : nodes ≠ [])
    (hprimary : ∀ n ∈ nodes, n.primaryAddr ∈ n.repAddrs) : (Whereabouts.start nodes).Inv := by
  have hlist : (start nodes).master.homes.nodesList
      = (Homes.start (nodes.map MasterNode.primaryAddr)).shared.nodesList := by
    refine List.ext_getElem? fun i => ?_
    rw [Master.homes_node, Homes.getElem?_start, start, List.getElem?_map,
      List.getElem?_map, Option.map_map, Option.map_map]
    rfl
  have hprimaries : (start nodes).master.primaries = nodes.map MasterNode.primaryAddr :=
    List.map_map ..
  have hplacing : (start nodes).master.Placing [] := by
    rw [Master.Placing, hprimaries,
      show (start nodes).master.homes = (Homes.start (nodes.map MasterNode.primaryAddr)).shared from
        congrArg (fun l => (⟨l, ∅, []⟩ : Homes)) hlist]
    exact Homes.placing_start _
  refine ⟨⟨[], hplacing⟩, fun h => hne (List.map_eq_nil_iff.mp h), fun i n hn => ?_,
    ⟨fun l hl => ?_, fun l hl => ?_, fun l hl => ?_, fun l hl => ?_⟩, fun l hl => ?_⟩
  · obtain ⟨n', hn', rfl⟩ := Option.map_eq_some_iff.mp hn
    obtain ⟨n, hmem, rfl⟩ := List.mem_map.mp (List.mem_of_getElem? hn')
    exact hprimary n hmem
  all_goals exact absurd hl List.not_mem_nil

/--
**Who asks for the same node is sent to the same replica**, in all states of a run,
whatever heartbeats come in between, until the next promotion; and every user who
asks is answered.
-/
theorem servers_agreed {addr x : Addr} {file : Option Str} {nodes : List MasterNode}
    {as : List WhereaboutsAction} (hinit : masterInit addr file = .ok (some (x, nodes)))
    (hne : nodes ≠ [])
    (hplain : ∀ a ∈ as, a.Plain)
    (hrun : Lib.run (Whereabouts.step alive) (Whereabouts.start nodes) as = some s) :
    Agreed s ∧ ∀ user, PlainUser user → user.length < 90 → ∀ ask answer,
      (s.step alive (.locate user ask answer)).isSome := by
  have hprimary : ∀ n ∈ nodes, n.primaryAddr ∈ n.repAddrs := by
    cases file with
    | none => cases hinit
    | some text =>
        obtain ⟨y, -, h⟩ := halt_bind_ok hinit
        obtain ⟨ns, hlines, h⟩ := halt_bind_ok h
        cases h
        exact masterLines_primary hlines
  have hs : s.Inv := Lib.inv_of_guarded (fun _ _ _ hs ha h => Whereabouts.inv_step hs ha h)
    (Whereabouts.inv_start hne hprimary) (Lib.guarded_of_forall hplain _) hrun
  refine ⟨hs.agreed, fun user hu hlen ask answer => ?_⟩
  obtain ⟨rows, hplacing⟩ := hs.placing
  obtain ⟨m, i, n, heq, -⟩ := locate_spec alive ask answer hplacing hs.nonempty hu hlen
  rw [heq]
  rfl

/-- Two nodes: one with two replicas, one with a single one. -/
def serverList : Str := "127.0.0.1:8000\n127.0.0.1:5000,127.0.0.1:6000\n127.0.0.1:7000\n".toList

/-- The primary of the first node is lost between two questions about it. -/
def askedTwice : List WhereaboutsAction :=
  [.locate "amy".toList inOnePiece eachByte, .locate "bob".toList eachByte inOnePiece,
   .heartbeat 0 true (· ≠ node5000), .askPrimary ⟨0, by decide⟩ eachByte eachByte,
   .locate "amy".toList inOnePiece inOnePiece]

theorem askedTwice_plain : ∀ a ∈ askedTwice, a.Plain := by
  have hamy : PlainUser "amy".toList := ⟨⟨by decide, by decide⟩, by decide⟩
  have hbob : PlainUser "bob".toList := ⟨⟨by decide, by decide⟩, by decide⟩
  simp only [askedTwice, List.forall_mem_cons, WhereaboutsAction.Plain, hamy, hbob, true_and]
  exact fun a ha => absurd ha List.not_mem_nil

theorem askedTwice_agreed : ∃ s, Agreed s ∧
    (s.log.map fun l => (l.node, l.term, (l.addr.port : Nat)))
      = [(0, 1, 6000), (0, 1, 6000), (1, 0, 7000), (0, 0, 5000)] := by
  have hruns : (((masterInit zeroAddr (some serverList)).toOption.join.bind fun r =>
      (Lib.run (Whereabouts.step fun _ _ => true) (Whereabouts.start r.2) askedTwice).map fun s =>
        (r.2.isEmpty, s.log.map fun l => (l.node, l.term, (l.addr.port : Nat)))))
      = some (false, [(0, 1, 6000), (0, 1, 6000), (1, 0, 7000), (0, 0, 5000)]) := by decide +kernel
  obtain ⟨r, hr, hrun⟩ := Option.bind_eq_some_iff.mp hruns
  obtain ⟨s, hs, hlog⟩ := Option.map_eq_some_iff.mp hrun
  obtain ⟨hne, hlog⟩ := Prod.mk.inj hlog
  have hinit : masterInit zeroAddr (some serverList) = .ok (some r) := by
    revert hr
    cases masterInit zeroAddr (some serverList) with
    | error e => exact fun hr => nomatch hr
    | ok r' => exact fun hr => congrArg Except.ok hr
  exact ⟨s, (servers_agreed hinit (fun h => by simp [h] at hne) askedTwice_plain hs).1, hlog⟩

end Runs

end PennCloud

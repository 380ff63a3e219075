import Skywalker.Contents
import Skywalker.Library.Run

/-!
# Connections

`Network` keeps a `TcpClient` for each node that it has sent something to. A message for a node
without a client makes one, which sends the message when it is connected; until then other messages
for the node are dropped. The client goes when it cannot connect or its connection closes, and the
next message makes a new one. If `Connect` fails before it returns, its callback finds no client to
erase, and the dead one stays.

A connection carries the frames of its messages in order. Any part of them arrives, in whatever
cuts, and the rest is lost with the connection; the process may end at any time. The sender's side
and the other ends of its connections are in one state here.

On each connection `OnMessage` hands the first of the messages that were written to it to its
callback, in their order. Joined connection by connection this is what `SendMessage` was called with
for the node, with messages left out: none is changed, made up or repeated
(`contents_arrive_as_sent`). An older connection may still hand on a message after a newer one has.
This is what the network of `System` allows, and less. Protobuf is a parameter that has the round
trip `Protobuf.RoundTrips`.
-/

namespace Skywalker

open TransitionSystem

variable {α : Type*}

/-! ## The state -/

/-- A connection, with both of its ends. -/
structure Connection (α : Type*) where
  /-- The messages whose frames were written to it, oldest first. -/
  sent : List α := []
  /-- The bytes that have arrived. -/
  arrived : List UInt8 := []
  /-- Those of them that are in the buffer of the receiver. -/
  buffer : List UInt8 := []
  /-- What its callback got, oldest first. -/
  received : List α := []
  /-- Whether `OnMessage` has shut it down. -/
  shutDown : Bool := false

/-- The state of the client that `connection_map_` has for a node. -/
inductive Client (α : Type*) where
  /-- The client is not connected yet. It will send a message when it is. -/
  | connecting (first : α)
  /-- The client is connected, and its connection is used. -/
  | connected
  /-- The client could not connect, before it was in the map. -/
  | dead

/-- What there is to one node. -/
structure Link (α : Type*) where
  /-- The client that `connection_map_` has for the node, if any. -/
  client : Option (Client α) := none
  /-- All connections, oldest first. The last one is that of a connected client. -/
  connections : List (Connection α) := []
  /-- What `SendMessage` was called with for the node, oldest first. -/
  calls : List α := []

/-- The links of a node to the others. -/
abbrev Links (α : Type*) := ℕ → Link α

/-- The events of the network of a node. -/
inductive NetworkEvent (α : Type*) where
  /-- The function of `SendMessage` to a node, with whether the node is found among the members and
  whether `Connect` fails at once. -/
  | send (dest : ℕ) (found early : Bool) (content : α)
  /-- The function of `SendMessage` to the members. -/
  | broadcast (members : List ℕ) (early : ℕ → Bool) (content : α)
  /-- The connection callback of a client. -/
  | connection (dest : ℕ)
  /-- The connect failure callback of a client. -/
  | connectFailure (dest : ℕ)
  /-- The close callback of a client. -/
  | close (dest : ℕ)
  /-- More bytes arrive at the other end of a connection. -/
  | arrive (dest i : ℕ) (chunk : List UInt8)
  /-- The process ends, and a new one starts. -/
  | restart

/-! ## The steps -/

/-- `TcpConnection::SendMessage` writes the frame of a content to the connection. -/
def Connection.push (c : Connection α) (content : α) : Connection α :=
  { c with sent := c.sent ++ [content] }

/-- `TcpConnection::SendMessage` on the newest connection. -/
def pushLast : List (Connection α) → α → List (Connection α)
  | [], _ => []
  | [c], content => [c.push content]
  | c :: d :: l, content => c :: pushLast (d :: l) content

/-- Bytes arrive at the other end, and `OnMessage` goes over its buffer. -/
def Connection.arrive (p : Protobuf α) (chunk : List UInt8) (c : Connection α) :
    Option (Connection α) :=
  let buf := c.buffer ++ chunk
  (Network.onMessage p (buf.length + 1) buf).map fun r =>
    { c with
      arrived := c.arrived ++ chunk
      buffer := r.rest
      received := c.received ++ r.items
      shutDown := c.shutDown || r.failed }

namespace Link

/-- A message for the node. Without a client, and when the node is found, `SendMessageInLoop` makes
one. -/
def send (found early : Bool) (content : α) (l : Link α) : Link α :=
  let l := { l with calls := l.calls ++ [content] }
  match l.client with
  | some .connected => { l with connections := pushLast l.connections content }
  | some _ => l
  | none =>
    if found then { l with client := some (if early then .dead else .connecting content) } else l

/-- The connection callback makes the connection and sends the first content over it. -/
def onConnection (l : Link α) : Option (Link α) :=
  match l.client with
  | some (.connecting first) =>
    some { l with
      client := some .connected
      connections := l.connections ++ [({} : Connection α).push first] }
  | _ => none

/-- The connect failure callback removes the client. -/
def onConnectFailure (l : Link α) : Option (Link α) :=
  match l.client with
  | some (.connecting _) => some { l with client := none }
  | _ => none

/-- The close callback removes the client of the connection. -/
def onClose (l : Link α) : Option (Link α) :=
  match l.client with
  | some .connected => some { l with client := none }
  | _ => none

/-- Bytes that were written to a connection arrive. -/
def arrive (p : Protobuf α) (i : ℕ) (chunk : List UInt8) (l : Link α) : Option (Link α) :=
  l.connections[i]?.bind fun c =>
    if c.arrived ++ chunk <+: Framing.stream (Network.frame p) c.sent then
      (c.arrive p chunk).map fun c' => { l with connections := l.connections.set i c' }
    else none

end Link

/-- One event changes the link that it is about. -/
def Links.step (p : Protobuf α) (my : ℕ) (s : Links α) : NetworkEvent α → Option (Links α)
  | .send dest found early content =>
    some (Function.update s dest ((s dest).send found early content))
  | .broadcast members early content =>
    some (members.foldl (fun s dest =>
      if dest = my then s else Function.update s dest ((s dest).send true (early dest) content)) s)
  | .connection dest => (s dest).onConnection.map (Function.update s dest)
  | .connectFailure dest => (s dest).onConnectFailure.map (Function.update s dest)
  | .close dest => (s dest).onClose.map (Function.update s dest)
  | .arrive dest i chunk => ((s dest).arrive p i chunk).map (Function.update s dest)
  | .restart => some fun dest => { s dest with client := none }

/-- A message that can be serialised, and is not too long. -/
def Protobuf.Sendable (p : Protobuf α) (content : α) : Prop :=
  ∃ bytes, p.appendToString content = some bytes ∧ bytes.length < 2 ^ 31 - 4

/-- All messages of an event can. -/
def NetworkEvent.Sendable (p : Protobuf α) : NetworkEvent α → Prop
  | .send _ _ _ content => p.Sendable content
  | .broadcast _ _ content => p.Sendable content
  | _ => True

/-! ## One connection -/

/-- The invariant of a connection: what the callback got is what the bytes that have arrived are
complete frames of. -/
structure Connection.Faithful (p : Protobuf α) (c : Connection α) : Prop where
  cut : ∃ left, Framing.Cut (Network.frame p) c.sent c.arrived c.received left c.buffer
  sendable : ∀ content ∈ c.sent, p.Sendable content
  shutDown : c.shutDown = false

section

variable {p : Protobuf α} {c c' : Connection α} {content : α} {chunk : List UInt8}

theorem Protobuf.Sendable.frame_pos (h : p.Sendable content) :
    0 < (Network.frame p content).length := by
  obtain ⟨bytes, hbytes, -⟩ := h
  rw [Network.frame_eq hbytes, List.length_append, length_putFixed32]
  omega

theorem Connection.Faithful.new (p : Protobuf α) : ({} : Connection α).Faithful p where
  cut := ⟨[], ⟨rfl, rfl, List.prefix_refl _, by simp⟩⟩
  sendable _ h := absurd h List.not_mem_nil
  shutDown := rfl

/-- A connection stays faithful when a content is sent over it. -/
theorem Connection.Faithful.push (h : c.Faithful p) (hcontent : p.Sendable content) :
    (c.push content).Faithful p where
  cut := by
    obtain ⟨left, hcut⟩ := h.cut
    exact ⟨left ++ [content], hcut.push hcontent.frame_pos⟩
  sendable a ha := by
    rcases List.mem_append.mp ha with ha | ha
    · exact h.sendable a ha
    · rw [List.mem_singleton.mp ha]
      exact hcontent
  shutDown := h.shutDown

/-- An arrival is processed, and the connection is faithful after it. -/
theorem Connection.Faithful.arrive (hp : p.RoundTrips) (h : c.Faithful p)
    (hpref : c.arrived ++ chunk <+: Framing.stream (Network.frame p) c.sent) :
    ∃ c', c.arrive p chunk = some c' ∧ c'.Faithful p ∧ c'.sent = c.sent := by
  obtain ⟨left, hcut⟩ := h.cut
  obtain ⟨more, left', part', hcut', hbuf, hdrain⟩ :=
    (Network.reads hp).drain_more hcut h.sendable hpref
  -- The loop of `OnMessage` takes at most a pass for each byte of the buffer.
  have hmore : ∀ a ∈ more, 0 < (Network.frame p a).length := fun a ha =>
    (h.sendable a (by rw [hcut'.msgs_eq]; simp [ha])).frame_pos
  have hlen : more.length + 1 ≤ (c.buffer ++ chunk).length + 1 := by
    have hle := Framing.length_le_length_stream hmore
    rw [← hbuf, List.length_append]
    omega
  have hmessage : Network.onMessage p ((c.buffer ++ chunk).length + 1) (c.buffer ++ chunk) =
      some ⟨more, part', false⟩ := Framing.drain_mono hlen hdrain
  refine ⟨{ c with
    arrived := c.arrived ++ chunk, buffer := part', received := c.received ++ more }, ?_, ?_, rfl⟩
  · simp only [Connection.arrive, hmessage, Option.map_some, Bool.or_false]
  · exact ⟨⟨left', hcut'⟩, h.sendable, h.shutDown⟩

theorem Connection.Faithful.received_first (h : c.Faithful p) : c.received <+: c.sent := by
  obtain ⟨left, hcut⟩ := h.cut
  rw [hcut.msgs_eq]
  exact List.prefix_append _ _

theorem Connection.Faithful.received_eq (h : c.Faithful p)
    (hall : c.arrived = Framing.stream (Network.frame p) c.sent) : c.received = c.sent := by
  obtain ⟨left, hcut⟩ := h.cut
  rw [hall] at hcut
  exact hcut.complete.1

theorem flatMap_pushLast {l : List (Connection α)} (hl : l ≠ []) :
    (pushLast l content).flatMap Connection.sent = l.flatMap Connection.sent ++ [content] := by
  induction l with
  | nil => exact absurd rfl hl
  | cons c l ih =>
    cases l with
    | nil => simp [pushLast, Connection.push]
    | cons d l => simp only [pushLast, List.flatMap_cons, ih (List.cons_ne_nil d l),
        List.append_assoc]

theorem mem_pushLast {l : List (Connection α)} (h : c ∈ pushLast l content) :
    c ∈ l ∨ ∃ d ∈ l, c = d.push content := by
  induction l with
  | nil => cases h
  | cons d l ih =>
    cases l with
    | nil => exact .inr ⟨d, List.mem_cons_self, List.mem_singleton.mp h⟩
    | cons e l =>
      rcases List.mem_cons.mp h with rfl | h
      · exact .inl List.mem_cons_self
      · rcases ih h with h | ⟨e', he', rfl⟩
        · exact .inl (List.mem_cons_of_mem _ h)
        · exact .inr ⟨e', List.mem_cons_of_mem _ he', rfl⟩

end

/-! ## All connections to a node -/

/-- The message that a client will send. -/
def Client.pending : Option (Client α) → List α
  | some (.connecting first) => [first]
  | _ => []

/-- The invariant of a link. -/
structure Link.Sound (p : Protobuf α) (l : Link α) : Prop where
  faithful : ∀ c ∈ l.connections, c.Faithful p
  pending : ∀ content ∈ Client.pending l.client, p.Sendable content
  /-- A connected client has a connection. -/
  connected : l.client = some .connected → l.connections ≠ []
  calls : (l.connections.flatMap Connection.sent ++ Client.pending l.client).Sublist l.calls

namespace Link.Sound

variable {p : Protobuf α} {l l' : Link α} {content : α}

theorem new (p : Protobuf α) : ({} : Link α).Sound p where
  faithful _ hc := absurd hc List.not_mem_nil
  pending _ hmem := absurd hmem List.not_mem_nil
  connected hnone := absurd hnone.symm (Option.some_ne_none _)
  calls := List.Sublist.refl _

theorem noClient (h : l.Sound p) : Link.Sound p { l with client := none } where
  faithful := h.faithful
  pending _ hmem := absurd hmem List.not_mem_nil
  connected hnone := absurd hnone.symm (Option.some_ne_none _)
  calls := ((List.Sublist.refl _).append (List.nil_sublist _)).trans h.calls

/-- A call of `Send` gives the content to the connection or to a new client, or drops it. -/
theorem send (h : l.Sound p) (hcontent : p.Sendable content) (found early : Bool) :
    (l.send found early content).Sound p := by
  have hcalls : (l.connections.flatMap Connection.sent ++ Client.pending l.client).Sublist
      (l.calls ++ [content]) := h.calls.trans (List.sublist_append_left _ _)
  have hdropped : Link.Sound p { l with calls := l.calls ++ [content] } :=
    ⟨h.faithful, h.pending, h.connected, hcalls⟩
  unfold Link.send
  dsimp only
  split
  case h_1 hclient =>
    -- The connection carries it.
    refine ⟨fun c hc => ?_, h.pending, fun _ hnil => ?_, ?_⟩
    · rcases mem_pushLast hc with hc | ⟨d, hd, rfl⟩
      · exact h.faithful c hc
      · exact (h.faithful d hd).push hcontent
    · have hflat : (pushLast l.connections content).flatMap Connection.sent = _ :=
        flatMap_pushLast (h.connected hclient)
      rw [show pushLast l.connections content = [] from hnil] at hflat
      simp at hflat
    · change (_ ++ Client.pending l.client).Sublist _
      have hold := h.calls
      rw [hclient] at hold ⊢
      rw [flatMap_pushLast (h.connected hclient)]
      simp only [Client.pending, List.append_nil] at hold ⊢
      exact hold.append (List.Sublist.refl _)
  case h_2 => exact hdropped
  case h_3 hclient =>
    have hold := h.calls
    rw [hclient] at hold
    simp only [Client.pending, List.append_nil] at hold
    split_ifs
    · refine ⟨h.faithful, fun _ hmem => absurd hmem List.not_mem_nil, fun hdead => ?_, ?_⟩
      · cases hdead
      · simp only [Client.pending, List.append_nil]
        exact hold.trans (List.sublist_append_left _ _)
    · refine ⟨h.faithful, fun a ha => ?_, fun hconnecting => ?_, ?_⟩
      · rw [List.mem_singleton.mp ha]
        exact hcontent
      · cases hconnecting
      · exact hold.append (List.Sublist.refl _)
    · exact hdropped

/-- The client is connected and sends its message. -/
theorem onConnection (h : l.Sound p) (hl : l.onConnection = some l') : l'.Sound p := by
  unfold Link.onConnection at hl
  split at hl
  case h_1 first hclient =>
    obtain rfl := Option.some.inj hl
    have hfirst : p.Sendable first := h.pending first (by rw [hclient]; exact List.mem_cons_self)
    refine ⟨fun c hc => ?_, fun _ hmem => absurd hmem List.not_mem_nil, fun _ hnil => ?_, ?_⟩
    · rcases List.mem_append.mp hc with hc | hc
      · exact h.faithful c hc
      · rw [List.mem_singleton.mp hc]
        exact (Connection.Faithful.new p).push hfirst
    · exact List.append_ne_nil_of_right_ne_nil _ (List.cons_ne_nil _ _) hnil
    · have hold := h.calls
      rw [hclient] at hold
      simpa [Client.pending, Connection.push] using hold
  case h_2 => cases hl

theorem onConnectFailure (h : l.Sound p) (hl : l.onConnectFailure = some l') : l'.Sound p := by
  unfold Link.onConnectFailure at hl
  split at hl
  case h_1 => exact Option.some.inj hl ▸ h.noClient
  case h_2 => cases hl

theorem onClose (h : l.Sound p) (hl : l.onClose = some l') : l'.Sound p := by
  unfold Link.onClose at hl
  split at hl
  case h_1 => exact Option.some.inj hl ▸ h.noClient
  case h_2 => cases hl

/-- An arrival leaves what was sent. -/
theorem flatMap_set {l : List (Connection α)} {i : ℕ} {c c' : Connection α} (hc : l[i]? = some c)
    (hsent : c'.sent = c.sent) :
    (l.set i c').flatMap Connection.sent = l.flatMap Connection.sent := by
  induction l generalizing i with
  | nil => cases hc
  | cons d l ih =>
    cases i with
    | zero =>
      obtain rfl := Option.some.inj hc
      rw [List.set_cons_zero, List.flatMap_cons, List.flatMap_cons, hsent]
    | succ i => rw [List.set_cons_succ, List.flatMap_cons, List.flatMap_cons, ih hc]

/-- A chunk that arrives on one of the connections. -/
theorem arrive (hp : p.RoundTrips) (h : l.Sound p) {i : ℕ} {chunk : List UInt8}
    (hl : l.arrive p i chunk = some l') : l'.Sound p := by
  obtain ⟨c, hc, hrest⟩ := Option.bind_eq_some_iff.mp hl
  obtain ⟨hpref, hmap⟩ := Option.ite_none_right_eq_some.mp hrest
  obtain ⟨c₂, hc₂, hfaithful, hsent⟩ := (h.faithful c (List.mem_of_getElem? hc)).arrive hp hpref
  rw [hc₂] at hmap
  obtain rfl := Option.some.inj hmap
  refine ⟨fun d hd => ?_, h.pending, fun hclient hnil => ?_, ?_⟩
  · rcases List.mem_or_eq_of_mem_set hd with hd | rfl
    · exact h.faithful d hd
    · exact hfaithful
  · exact h.connected hclient (by simpa using hnil)
  · change ((l.connections.set i c₂).flatMap Connection.sent ++ _).Sublist _
    rw [flatMap_set hc hsent]
    exact h.calls

/-- What arrives is what was sent, with messages left out. -/
theorem received_sublist (h : l.Sound p) :
    (l.connections.flatMap Connection.received).Sublist l.calls := by
  have hflat : ∀ cs : List (Connection α), (∀ c ∈ cs, c.Faithful p) →
      (cs.flatMap Connection.received).Sublist (cs.flatMap Connection.sent) := by
    intro cs hcs
    induction cs with
    | nil => exact List.Sublist.refl _
    | cons c cs ih =>
      rw [List.flatMap_cons, List.flatMap_cons]
      exact (hcs c List.mem_cons_self).received_first.sublist.append
        (ih fun d hd => hcs d (List.mem_cons_of_mem c hd))
  exact (hflat _ h.faithful).trans ((List.sublist_append_left _ _).trans h.calls)

end Link.Sound

/-- **One event** keeps all links sound. -/
theorem Links.sound_step {p : Protobuf α} (hp : p.RoundTrips) {my : ℕ} {s t : Links α}
    {e : NetworkEvent α} (h : ∀ dest, (s dest).Sound p) (he : e.Sendable p)
    (hstep : s.step p my e = some t) : ∀ dest, (t dest).Sound p := by
  have hupdate : ∀ (s : Links α) (k : ℕ) (l : Link α), (∀ dest, (s dest).Sound p) → l.Sound p →
      ∀ dest, (Function.update s k l dest).Sound p := by
    intro s k l hs hl dest
    by_cases hdest : dest = k
    · rw [hdest, Function.update_self]
      exact hl
    · rw [Function.update_of_ne hdest]
      exact hs dest
  cases e with
  | send dest found early content =>
    obtain rfl := Option.some.inj hstep
    exact hupdate s dest _ h ((h dest).send he found early)
  | broadcast members early content =>
    obtain rfl := Option.some.inj hstep
    induction members generalizing s with
    | nil => exact h
    | cons dest members ih =>
      rw [List.foldl_cons]
      refine ih ?_ he rfl
      split_ifs
      · exact h
      · exact hupdate s dest _ h ((h dest).send he true (early dest))
  | connection dest =>
    obtain ⟨l, hl, rfl⟩ := Option.map_eq_some_iff.mp hstep
    exact hupdate s dest l h ((h dest).onConnection hl)
  | connectFailure dest =>
    obtain ⟨l, hl, rfl⟩ := Option.map_eq_some_iff.mp hstep
    exact hupdate s dest l h ((h dest).onConnectFailure hl)
  | close dest =>
    obtain ⟨l, hl, rfl⟩ := Option.map_eq_some_iff.mp hstep
    exact hupdate s dest l h ((h dest).onClose hl)
  | arrive dest i chunk =>
    obtain ⟨l, hl, rfl⟩ := Option.map_eq_some_iff.mp hstep
    exact hupdate s dest l h ((h dest).arrive hp hl)
  | restart =>
    obtain rfl := Option.some.inj hstep
    exact fun dest => (h dest).noClient

/-- **Contents arrive as they were sent.** In every run of the network of a node, with any failures
of its connections and arrivals in any cuts: the other end of each connection processes whatever
part of the frames arrives, never shuts the connection down, and has handed on the first of the
contents that were written to it, all of them when all bytes have arrived. What was handed on at a
node, connection by connection, is a sublist of the contents that `SendMessage` was called with for
the node. -/
theorem contents_arrive_as_sent {p : Protobuf α} (hp : p.RoundTrips) {my : ℕ} {s : Links α}
    (hrun : Reaches (Links.step p my) (fun _ e => e.Sendable p) (fun _ => {}) s) (dest : ℕ) :
    (∀ c ∈ (s dest).connections, c.shutDown = false ∧ c.received <+: c.sent ∧
      (c.arrived = Framing.stream (Network.frame p) c.sent → c.received = c.sent)) ∧
    (∀ i c chunk, (s dest).connections[i]? = some c →
      c.arrived ++ chunk <+: Framing.stream (Network.frame p) c.sent →
      ∃ t, s.step p my (.arrive dest i chunk) = some t) ∧
    ((s dest).connections.flatMap Connection.received).Sublist (s dest).calls := by
  have hsound : (s dest).Sound p := by
    refine hrun.invariant (P := fun s => ∀ dest, (s dest).Sound p) ?_ ?_ dest
    · exact fun _ => .new p
    · exact fun _ _ _ hs he hstep => Links.sound_step hp hs he hstep
  refine ⟨fun c hc => ?_, fun i c chunk hc hpref => ?_, hsound.received_sublist⟩
  · have hfaithful := hsound.faithful c hc
    exact ⟨hfaithful.shutDown, hfaithful.received_first, hfaithful.received_eq⟩
  · obtain ⟨c', hc', -⟩ := (hsound.faithful c (List.mem_of_getElem? hc)).arrive hp hpref
    refine ⟨Function.update s dest
      { s dest with connections := (s dest).connections.set i c' }, ?_⟩
    simp only [Links.step, Link.arrive, hc, Option.bind_some, if_pos hpref, hc', Option.map_some]

/-- Of four contents for node 2 the second comes before the connection is there, and of the last one
only a part arrives. -/
def lossyRun : List (NetworkEvent Content) :=
  [.send 2 true false (prepareContent 1), .send 2 true false (prepareContent 2), .connection 2,
   .broadcast [1, 2] (fun _ => false) (prepareContent 3),
   .send 2 true false (prepareContent 4),
   .arrive 2 0 ((Framing.stream (Network.frame contentProtobuf)
      [prepareContent 1, prepareContent 3, prepareContent 4]).take 30), .close 2]

/-- The first and the third arrive. -/
theorem contents_arrive_as_sent_lossy : ∃ s : Links Content,
    ((s 2).connections.flatMap Connection.received).Sublist (s 2).calls ∧
    (s 2).connections.flatMap Connection.received = [prepareContent 1, prepareContent 3] := by
  have hend : (run (Links.step contentProtobuf 1) (fun _ => {}) lossyRun).map
      (fun s => (s 2).connections.flatMap Connection.received) =
        some [prepareContent 1, prepareContent 3] := by
    decide +kernel
  obtain ⟨s, hs, hreceived⟩ := Option.map_eq_some_iff.mp hend
  have hsendable : ∀ i ∈ [1, 2, 3, 4], contentProtobuf.Sendable (prepareContent i) := by
    intro i hi
    refine Content.appendToString ?_ ?_ <;> (revert i; decide)
  have hrun : Reaches (Links.step contentProtobuf 1) (fun _ e => e.Sendable contentProtobuf)
      (fun _ => {}) s := by
    refine .of_run lossyRun (fun e he _ => ?_) hs
    simp only [lossyRun, List.mem_cons, List.not_mem_nil, or_false] at he
    rcases he with rfl | rfl | rfl | rfl | rfl | rfl | rfl
    all_goals first | trivial | exact hsendable _ (by decide)
  exact ⟨s, (contents_arrive_as_sent contentProtobuf_roundTrips hrun 2).2.2, hreceived⟩

end Skywalker

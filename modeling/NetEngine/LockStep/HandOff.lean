import Mathlib.Logic.Function.Basic
import NetEngine.LockStep.WorldRun

/-!
# Handing messages to the world

One network thread runs the loop of `Cell::Recv`: it decodes a message into the
loop's local record, and `Server::OnMessage` passes the address of that record
to `PushMsg`.  The main thread ticks the world in between.  The record is the
same storage in every round, so a queued address shows whatever was decoded
last.

`reads_prefix_iff` says when the world nevertheless reads the decoded messages
in order and unchanged: exactly when each message it takes off the queue agrees
with the one decoded last.
-/

namespace NetEngine
namespace LockStep

open Net

/-- Address of the local `body` in the frame of `Cell::Recv`. -/
def bodyPtr : MsgPtr := 0

/--
Both threads: the world, the memory behind message addresses, and the client
whose message is decoded but not yet passed on.
-/
structure HandOff where
  world : World
  memory : MsgPtr → MessageBody
  pending : Option Client := none

inductive HandOffEvent where
  /-- The loop decodes a client's message into its local record. -/
  | decode (client : Client) (body : MessageBody)
  /-- `OnMessageProc` passes the record's address to `PushMsg`. -/
  | pushMsg
  /-- The main loop ticks the world. -/
  | tick (turnDue : Bool)

/-- What passes through the hand-off. -/
inductive Handed where
  | decoded (client : Client) (body : MessageBody)
  | read (client : Client) (body : MessageBody)

/-- The message that an observation shows being dispatched. -/
def readOf : Observation → Option Handed
  | .read client body => some (.read client body)
  | _ => none

namespace HandOff

variable (codec : Codec)

/-- One atomic step of either thread. -/
def step (s : HandOff) : HandOffEvent → HandOff × List Handed
  | .decode client body =>
      match s.pending with
      | some _ => (s, [])
      | none =>
          ({ s with
              memory := Function.update s.memory bodyPtr body
              pending := some client },
            [.decoded client body])
  | .pushMsg =>
      match s.pending with
      | none => (s, [])
      | some client =>
          ({ s with
              world := s.world.pushMsg client bodyPtr
              pending := none }, [])
  | .tick turnDue =>
      let r := s.world.tick codec s.memory turnDue
      ({ s with world := r.1 }, r.2.filterMap readOf)

end HandOff

/-- Messages decoded, in order. -/
def decodedSeq (tr : List Handed) : List (Client × MessageBody) :=
  tr.filterMap (fun h =>
    match h with
    | .decoded client body => some (client, body)
    | .read _ _ => none)

/-- Messages read by `DispatchCommand`, in order. -/
def readSeq (tr : List Handed) : List (Client × MessageBody) :=
  tr.filterMap (fun h =>
    match h with
    | .decoded _ _ => none
    | .read client body => some (client, body))

theorem decodedSeq_append (tr out : List Handed) :
    decodedSeq (tr ++ out) = decodedSeq tr ++ decodedSeq out := by
  simp [decodedSeq]

theorem readSeq_append (tr out : List Handed) :
    readSeq (tr ++ out) = readSeq tr ++ readSeq out := by
  simp [readSeq]

@[simp] theorem decodedSeq_decoded (client : Client) (body : MessageBody) :
    decodedSeq [.decoded client body] = [(client, body)] := by
  rfl

@[simp] theorem readSeq_decoded (client : Client) (body : MessageBody) :
    readSeq [.decoded client body] = [] := by
  rfl

@[simp] theorem decodedSeq_read (client : Client) (body : MessageBody) :
    decodedSeq [.read client body] = [] := by
  rfl

@[simp] theorem readSeq_read (client : Client) (body : MessageBody) :
    readSeq [.read client body] = [(client, body)] := by
  rfl

section Ticks

/-- A move that dispatches a message pops the queue and reads nothing else. -/
theorem Move.of_read
    {w w' : World} {out : List Observation} {client : Client}
    {body : MessageBody}
    (h : Move w (.read client body :: out) w') :
    w'.msgQueue = w.msgQueue.tail ∧ out.filterMap readOf = [] := by
  generalize hout : Observation.read client body :: out = o at h
  cases h with
  | idle | push => simp at hout
  | join | exit => simp at hout
  | turn => simp [World.frameTurn, World.broadcast] at hout
  | ignore | readyEarly | ready | start | frame | login =>
      obtain ⟨-, rfl⟩ := List.cons.inj hout
      exact ⟨rfl, rfl⟩

/-- A turn reads nothing and leaves the queue. -/
theorem TurnMove.reads
    {w w' : World} {out : List Observation} (h : TurnMove w out w') :
    w'.msgQueue = w.msgQueue ∧ out.filterMap readOf = [] := by
  cases h with
  | idle =>
      exact ⟨rfl, rfl⟩
  | turn hrun =>
      exact ⟨rfl, rfl⟩

/-- `DispatchCommand` starts by reading the message. -/
theorem dispatchCommand_read
    (codec : Codec) (w : World) (client : Client) (body : MessageBody) :
    ∃ out, (w.dispatchCommand codec client body).2 =
      .read client body :: out := by
  unfold World.dispatchCommand
  cases World.command codec body.type with
  | none =>
      exact ⟨[], rfl⟩
  | some func =>
      cases w.getUser client.sockfd with
      | none =>
          exact ⟨[], rfl⟩
      | some player =>
          exact ⟨_, rfl⟩

/-- `MessageProc` takes the front message off the queue and reads it. -/
theorem messageProc_reads
    (codec : Codec) (memory : MsgPtr → MessageBody) (w : World) :
    (w.messageProc codec memory).1.msgQueue = w.msgQueue.tail ∧
      (w.messageProc codec memory).2.filterMap readOf =
        (w.msgQueue.take 1).map
          (fun node => .read node.client (memory node.msg)) := by
  unfold World.messageProc
  cases hqueue : w.msgQueue with
  | nil =>
      exact ⟨hqueue, rfl⟩
  | cons node rest =>
      have hmove :=
        dispatchCommand_move codec w node.client (memory node.msg)
      obtain ⟨out, hout⟩ :=
        dispatchCommand_read codec w node.client (memory node.msg)
      rw [hout] at hmove
      obtain ⟨hpop, hreads⟩ := hmove.of_read
      rw [hqueue] at hpop
      refine ⟨hpop, ?_⟩
      simp only [hout, List.filterMap_cons, readOf, hreads]
      rfl

/-- A tick reads what `MessageProc` reads; the turn after it adds nothing. -/
theorem tick_reads
    (codec : Codec) (memory : MsgPtr → MessageBody) (turnDue : Bool)
    (w : World) :
    (w.tick codec memory turnDue).1.msgQueue = w.msgQueue.tail ∧
      (w.tick codec memory turnDue).2.filterMap readOf =
        (w.msgQueue.take 1).map
          (fun node => .read node.client (memory node.msg)) := by
  obtain ⟨hpop, hread⟩ := messageProc_reads codec memory w
  cases turnDue with
  | false =>
      exact ⟨hpop, hread⟩
  | true =>
      obtain ⟨hqueue, hnone⟩ :=
        (turn_turnMove (w.messageProc codec memory).1).reads
      refine ⟨hqueue.trans hpop, ?_⟩
      show List.filterMap readOf (_ ++ _) = _
      rw [List.filterMap_append, hnone, List.append_nil]
      exact hread

end Ticks

/--
Clients never get lost or reordered: those decoded are those read, those queued
and the pending one.  Every queued address is the record's, and the record
shows what was decoded last.
-/
structure HandOff.Inv (s : HandOff) (tr : List Handed) : Prop where
  clients :
    (decodedSeq tr).map Prod.fst =
      (readSeq tr).map Prod.fst ++
        (s.world.msgQueue.map MsgNode.client ++ s.pending.toList)
  address : ∀ node ∈ s.world.msgQueue, node.msg = bodyPtr
  latest : ∀ last, (decodedSeq tr).getLast? = some last →
    s.memory bodyPtr = last.2

theorem HandOff.inv_init
    {s : HandOff} (hqueue : s.world.msgQueue = [])
    (hpending : s.pending = none) :
    HandOff.Inv s [] := by
  refine ⟨?_, ?_, ?_⟩
  · simp [decodedSeq, readSeq, hqueue, hpending]
  · simp [hqueue]
  · simp [decodedSeq]

theorem HandOff.inv_step
    (codec : Codec) {s : HandOff} {tr : List Handed}
    (h : HandOff.Inv s tr) (e : HandOffEvent) :
    HandOff.Inv (s.step codec e).1 (tr ++ (s.step codec e).2) := by
  cases e with
  | decode client body =>
      cases hpending : s.pending with
      | some other =>
          simpa [HandOff.step, hpending] using h
      | none =>
          have hclients := h.clients
          rw [hpending] at hclients
          simp only [HandOff.step, hpending]
          refine ⟨?_, h.address, ?_⟩
          · rw [decodedSeq_append, readSeq_append, List.map_append, hclients]
            simp
          · intro last hlast
            rw [decodedSeq_append] at hlast
            have hbody : (client, body) = last := by
              simpa using hlast
            simp [← hbody]
  | pushMsg =>
      cases hpending : s.pending with
      | none =>
          simpa [HandOff.step, hpending] using h
      | some client =>
          have hclients := h.clients
          rw [hpending] at hclients
          simp only [HandOff.step, hpending, List.append_nil]
          refine ⟨?_, ?_, h.latest⟩
          · simpa [World.pushMsg] using hclients
          · intro node hnode
            rcases List.mem_append.mp hnode with hnode | hnode
            · exact h.address node hnode
            · rw [List.mem_singleton.mp hnode]
  | tick turnDue =>
      obtain ⟨hqueue, hreads⟩ :=
        tick_reads codec s.memory turnDue s.world
      have hclients := h.clients
      have haddress := h.address
      simp only [HandOff.step]
      rw [hreads]
      cases hfront : s.world.msgQueue with
      | nil =>
          rw [hfront] at hclients hqueue
          refine ⟨?_, ?_, ?_⟩
          · simpa [hqueue] using hclients
          · simp [hqueue]
          · simpa using h.latest
      | cons node rest =>
          rw [hfront] at hclients hqueue haddress
          refine ⟨?_, ?_, ?_⟩
          · rw [decodedSeq_append, readSeq_append, List.map_append, hclients]
            simp [hqueue]
          · intro node' hnode'
            rw [hqueue] at hnode'
            exact haddress node' (List.mem_cons_of_mem _ hnode')
          · simpa [decodedSeq_append] using h.latest

/-- The queue is empty, or its front message agrees with the latest decoded. -/
def FrontIsLatest (s : HandOff) (tr : List Handed) (e : HandOffEvent) : Prop :=
  match e with
  | .tick _ =>
      s.world.msgQueue ≠ [] →
        ∀ front last,
          (decodedSeq tr)[(readSeq tr).length]? = some front →
          (decodedSeq tr).getLast? = some last →
          front.2 = last.2
  | _ => True

/-- What was read is the beginning of what was decoded. -/
def ReadsDecoded (tr : List Handed) : Prop :=
  readSeq tr <+: decodedSeq tr

/-- A prefix grows by exactly the next element. -/
theorem prefix_concat_iff
    {α : Type} {xs ys : List α} (h : xs <+: ys) (a : α) :
    xs ++ [a] <+: ys ↔ ys[xs.length]? = some a := by
  obtain ⟨zs, rfl⟩ := h
  cases zs with
  | nil =>
      constructor
      · intro hpre
        have hlen := hpre.length_le
        simp at hlen
      · intro hget
        simp at hget
  | cons z zs =>
      simp [List.prefix_append_right_inj, eq_comm]

/--
While a message is queued there is a decoded one to be read next, of the queued
message's client, and the record shows the one decoded last.
-/
theorem HandOff.Inv.front
    {s : HandOff} {tr : List Handed} (h : HandOff.Inv s tr)
    {node : MsgNode} {rest : List MsgNode}
    (hqueue : s.world.msgQueue = node :: rest) :
    ∃ front last,
      (decodedSeq tr)[(readSeq tr).length]? = some front ∧
      (decodedSeq tr).getLast? = some last ∧
      front.1 = node.client ∧ s.memory node.msg = last.2 := by
  have hclients := h.clients
  rw [hqueue] at hclients
  have hlength := congrArg List.length hclients
  have hlt : (readSeq tr).length < (decodedSeq tr).length := by
    simp at hlength
    omega
  have hne : decodedSeq tr ≠ [] := by
    intro hnil
    rw [hnil] at hlt
    simp at hlt
  have hget := List.getElem?_eq_getElem hlt
  have hlast := List.getLast?_eq_some_getLast hne
  refine ⟨_, _, hget, hlast, ?_, ?_⟩
  · have hnth := congrArg (fun l => l[(readSeq tr).length]?) hclients
    simpa [hget] using hnth
  · rw [h.address node (by simp [hqueue])]
    exact h.latest _ hlast

/-- What one tick has to do with the order of reading. -/
theorem tick_readsDecoded_iff
    (codec : Codec) {s : HandOff} {tr : List Handed}
    (hinv : HandOff.Inv s tr) (hreads : ReadsDecoded tr)
    (turnDue : Bool) :
    ReadsDecoded (tr ++ (s.step codec (.tick turnDue)).2) ↔
      FrontIsLatest s tr (.tick turnDue) := by
  have hout := (tick_reads codec s.memory turnDue s.world).2
  simp only [HandOff.step, FrontIsLatest]
  rw [hout]
  cases hfront : s.world.msgQueue with
  | nil =>
      simp only [List.take_nil, List.map_nil, List.append_nil, ne_eq,
        not_true_eq_false, false_implies, iff_true]
      exact hreads
  | cons node rest =>
      obtain ⟨front, last, hget, hlast, hclient, hmem⟩ :=
        hinv.front hfront
      have hread : readSeq (tr ++
            ((node :: rest).take 1).map
              (fun n => Handed.read n.client (s.memory n.msg))) =
          readSeq tr ++ [(node.client, last.2)] := by
        rw [readSeq_append]
        simp [hmem]
      have hdecoded : decodedSeq (tr ++
            ((node :: rest).take 1).map
              (fun n => Handed.read n.client (s.memory n.msg))) =
          decodedSeq tr := by
        rw [decodedSeq_append]
        simp
      rw [ReadsDecoded, hread, hdecoded, prefix_concat_iff hreads, hget]
      constructor
      · intro heq _ front' last' hfront' hlast'
        rw [hlast] at hlast'
        cases hfront'
        cases hlast'
        cases heq
        rfl
      · intro himp
        have hbody := himp (by simp) front last rfl hlast
        have hpair : front = (node.client, last.2) :=
          Prod.ext hclient hbody
        rw [hpair]

/-- Steps that read nothing keep the order of reading. -/
theorem ReadsDecoded.append
    {tr out : List Handed} (h : ReadsDecoded tr) (hout : readSeq out = []) :
    ReadsDecoded (tr ++ out) := by
  rw [ReadsDecoded, readSeq_append, hout, List.append_nil, decodedSeq_append]
  exact h.trans (List.prefix_append _ _)

/-- A step whose event meets the guard keeps the order of reading. -/
theorem HandOff.readsDecoded_step
    (codec : Codec) {s : HandOff} {tr : List Handed} {e : HandOffEvent}
    (hinv : HandOff.Inv s tr) (hreads : ReadsDecoded tr)
    (hfront : FrontIsLatest s tr e) :
    ReadsDecoded (tr ++ (s.step codec e).2) := by
  cases e with
  | decode client body =>
      refine hreads.append ?_
      cases hpending : s.pending with
      | some other =>
          simp [HandOff.step, hpending, readSeq]
      | none =>
          simp [HandOff.step, hpending]
  | pushMsg =>
      refine hreads.append ?_
      cases hpending : s.pending with
      | some other =>
          simp [HandOff.step, hpending, readSeq]
      | none =>
          simp [HandOff.step, hpending, readSeq]
  | tick turnDue =>
      exact (tick_readsDecoded_iff codec hinv hreads turnDue).mpr hfront

/-- Both threads before anything was decoded. -/
def HandOff.start (memory : MsgPtr → MessageBody) : HandOff where
  world := {}
  memory := memory

theorem HandOff.inv_run
    (codec : Codec) (memory : MsgPtr → MessageBody)
    (events : List HandOffEvent) :
    HandOff.Inv
      (Machine.run (HandOff.step codec) (HandOff.start memory) events).1
      (Machine.run (HandOff.step codec) (HandOff.start memory) events).2 :=
  Machine.run_invariant (HandOff.inv_init rfl rfl)
    (fun _ _ e h => HandOff.inv_step codec h e) events

/--
After every part of an interleaving the messages read are the beginning of the
messages decoded, exactly when every tick that takes a message off the queue
finds it equal to the message decoded last.
-/
theorem reads_prefix_iff
    (codec : Codec) (memory : MsgPtr → MessageBody)
    (events : List HandOffEvent) :
    (∀ part, part <+: events →
      ReadsDecoded
        (Machine.run (HandOff.step codec) (HandOff.start memory) part).2) ↔
    Machine.Along (HandOff.step codec) FrontIsLatest
      (HandOff.start memory) events := by
  refine Machine.forall_prefix_iff_along
    (I := fun part => ReadsDecoded
      (Machine.run (HandOff.step codec) (HandOff.start memory) part).2)
    List.prefix_rfl ?_ events
  intro part e hreads
  have hinv := HandOff.inv_run codec memory part
  rw [Machine.run_concat]
  constructor
  · intro hafter
    cases e with
    | decode client body =>
        trivial
    | pushMsg =>
        trivial
    | tick turnDue =>
        exact (tick_readsDecoded_iff codec hinv hreads turnDue).mp hafter
  · intro hguard
    exact HandOff.readsDecoded_step codec hinv hreads hguard

/--
A CSReady and a CSLogin of one client are decoded before the first tick: the
first message read is the CSLogin, not the CSReady.
-/
theorem reads_not_prefix :
    ¬ ∀ (codec : Codec) (memory : MsgPtr → MessageBody)
        (events : List HandOffEvent),
      ReadsDecoded
        (Machine.run (HandOff.step codec)
          (HandOff.start memory) events).2 := by
  intro h
  have hreads := h plainCodec (fun _ => clientBody .ECSReady [])
    [.decode ⟨0, 4⟩ (clientBody .ECSReady []), .pushMsg,
      .decode ⟨0, 4⟩ (clientBody .ECSLogin []), .pushMsg,
      .tick false]
  have htype :
      (clientBody .ECSLogin []).type = (clientBody .ECSReady []).type := by
    obtain ⟨rest, hrest⟩ := hreads
    have hfirst := congrArg (List.map (fun m => m.2.type)) hrest
    exact (List.cons.inj hfirst).1
  exact absurd htype (by decide)

end LockStep
end NetEngine

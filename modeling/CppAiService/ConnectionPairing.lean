import CppAiService.ConnectionLife

namespace CppAiService.ConnectionPairing

open Foundation.Run TcpConnection

/-- One connection in its loop. `connectEstablished` and `connectDestroyed` say whether these have
run to their end, `dispatching` is what is left of a dispatch, and `queued` counts the tasks
that will call `connectDestroyed`. -/
structure World where
  conn : TcpConnection
  connectEstablished : Bool
  connectDestroyed : Bool
  dispatching : Option Bool
  queued : ℕ

inductive Action
  | connectEstablished
  | send (buf : Bytes) (result : WriteResult)
  | shutdown
  | handleEvent (revents : Revents) (readResult : ReadResult)
  | finishEvent (result : WriteResult)
  | queueDestroyed
  | runDestroyed
  | destroyServer

namespace World

variable (w : World)

def destroy : Option World :=
  w.conn.connectDestroyed.map fun conn ↦ { w with conn := conn, connectDestroyed := true }

/-- `connectDestroyed` is queued when the server has removed the connection, or when it is
destroyed in another thread; in the loop's own thread its destructor calls it, be it inside of
a callback. -/
def step : Action → Option World
  | .connectEstablished =>
    w.conn.connectEstablished.map fun conn ↦ { w with conn := conn, connectEstablished := true }
  | .send buf result => (w.conn.send buf result).map fun conn ↦ { w with conn := conn }
  | .shutdown => some { w with conn := w.conn.shutdown }
  | .handleEvent revents readResult =>
    (w.conn.readStage revents readResult).map fun conn ↦
      { w with conn := conn, dispatching := some revents.write }
  | .finishEvent result =>
    w.dispatching.bind fun write ↦ (w.conn.writeStage write result).map fun conn ↦
      { w with conn := conn, dispatching := none }
  | .queueDestroyed => some { w with queued := w.queued + 1 }
  | .runDestroyed => { w with queued := w.queued - 1 }.destroy
  | .destroyServer => w.destroy

end World

def start (writeComplete highWater : Bool) (mark : ℕ) : World where
  conn := .create writeComplete highWater mark
  connectEstablished := false
  connectDestroyed := false
  dispatching := none
  queued := 0

/-- `connectEstablished` runs once, before any other task of the connection; an event is one the
poller can report, and tasks run between the events. -/
def Lawful (w : World) : Action → Prop
  | .connectEstablished => w.connectEstablished = false
  | .send .. | .shutdown | .queueDestroyed => True
  | .handleEvent revents _ => w.dispatching = none ∧ revents.possible w.conn.interest = true
  | .finishEvent _ => w.dispatching ≠ none
  | .runDestroyed => w.connectEstablished = true ∧ w.dispatching = none ∧ 0 < w.queued
  | .destroyServer => w.connectEstablished = true

/-- A connection that is shutting down is not destroyed. -/
def Heard (w : World) : Action → Prop
  | .runDestroyed | .destroyServer => w.conn.state_ ≠ .kDisconnecting
  | .connectEstablished | .send .. | .shutdown | .handleEvent .. | .finishEvent _
  | .queueDestroyed => True

instance (w : World) : DecidablePred (Lawful w)
  | .connectEstablished => inferInstanceAs (Decidable (_ = _))
  | .send .. | .shutdown | .queueDestroyed => inferInstanceAs (Decidable True)
  | .handleEvent .. => inferInstanceAs (Decidable (_ = _ ∧ _ = _))
  | .finishEvent _ => inferInstanceAs (Decidable (_ ≠ _))
  | .runDestroyed => inferInstanceAs (Decidable (_ = _ ∧ _ = _ ∧ _))
  | .destroyServer => inferInstanceAs (Decidable (_ = _))

instance (w : World) : DecidablePred (Heard w)
  | .runDestroyed | .destroyServer => inferInstanceAs (Decidable (_ ≠ _))
  | .connectEstablished | .send .. | .shutdown | .handleEvent .. | .finishEvent _
  | .queueDestroyed => inferInstanceAs (Decidable True)

def Effect.report : Effect → Option Bool
  | .connectionCallback connected => some connected
  | _ => none

def reports (trace : List Effect) : List Bool := trace.filterMap Effect.report

/-- A connection that was reported up has been reported down once `connectDestroyed` has run, and
there was no other report. -/
def Paired (w : World) : Prop :=
  w.connectDestroyed = true → true ∈ reports w.conn.trace → reports w.conn.trace = [true, false]

theorem reports_milestones (trace : List Effect) :
    reports (milestones trace) = reports trace := by
  induction trace with
  | nil => rfl
  | cons e trace ih =>
    cases e with
    | connectionCallback connected => exact congrArg (connected :: ·) ih
    | closing => exact ih
    | closeCallback => exact ih
    | wrote bytes => exact ih
    | shutdownWrite => exact ih
    | epoll operation => exact ih
    | writeComplete => exact ih
    | highWaterMark bytes => exact ih

inductive Phase (w : World) : Prop
  | waiting (conn : ∃ writeComplete highWater mark, w.conn = .create writeComplete highWater mark)
      (established : w.connectEstablished = false) (destroyed : w.connectDestroyed = false)
      (dispatching : w.dispatching = none)
  | up (conn : w.conn.Up) (established : w.connectEstablished = true)
      (destroyed : w.connectDestroyed = false)
  | down (reported : List Effect) (conn : w.conn.Down reported)
      (established : w.connectEstablished = true) (report : reports reported = [true, false])

variable {w : World}

theorem Phase.paired (h : Phase w) : Paired w := by
  intro hdestroyed _
  cases h with
  | waiting _ _ hno => cases hno.symm.trans hdestroyed
  | up _ _ hno => cases hno.symm.trans hdestroyed
  | down reported hconn _ hreport => rw [← reports_milestones, hconn.milestones, hreport]

theorem Phase.requeue (h : Phase w) (queued : ℕ) : Phase { w with queued := queued } := by
  cases h with
  | waiting hconn hestablished hdestroyed hdispatching =>
    exact .waiting hconn hestablished hdestroyed hdispatching
  | up hup hestablished hdestroyed => exact .up hup hestablished hdestroyed
  | down reported hdown hestablished hreport => exact .down reported hdown hestablished hreport

theorem Phase.send (h : Phase w) (buf : Bytes) (result : WriteResult) :
    ∃ w', w.step (.send buf result) = some w' ∧ Phase w' := by
  cases h with
  | waiting hconn hestablished hdestroyed hdispatching =>
    refine ⟨w, ?_, .waiting hconn hestablished hdestroyed hdispatching⟩
    obtain ⟨writeComplete, highWater, mark, hconn⟩ := hconn
    have hc : w.conn.connected = false := by rw [hconn]; rfl
    rw [World.step, TcpConnection.send, hc, if_neg Bool.false_ne_true]
    rfl
  | up hup hestablished hdestroyed =>
    obtain ⟨d, hd, hup⟩ := up_kept.send hup buf result
    exact ⟨{ w with conn := d }, by rw [World.step, hd, Option.map_some],
      .up hup hestablished hdestroyed⟩
  | down reported hdown hestablished hreport =>
    exact ⟨w, by rw [World.step, hdown.send, Option.map_some],
      .down reported hdown hestablished hreport⟩

theorem Phase.shutdown (h : Phase w) : Phase { w with conn := w.conn.shutdown } := by
  cases h with
  | waiting hconn hestablished hdestroyed hdispatching =>
    obtain ⟨writeComplete, highWater, mark, hconn⟩ := hconn
    refine .waiting ⟨writeComplete, highWater, mark, ?_⟩ hestablished hdestroyed hdispatching
    rw [hconn]
    rfl
  | up hup hestablished hdestroyed => exact .up (up_kept.shutdown hup) hestablished hdestroyed
  | down reported hdown hestablished hreport =>
    exact .down reported (hdown.shutdown.symm ▸ hdown) hestablished hreport

theorem Phase.handleEvent (h : Phase w) (revents : Revents) (readResult : ReadResult)
    (hpossible : revents.possible w.conn.interest = true) :
    ∃ w', w.step (.handleEvent revents readResult) = some w' ∧ Phase w' := by
  cases h with
  | waiting hconn =>
    obtain ⟨writeComplete, highWater, mark, hconn⟩ := hconn
    rw [hconn] at hpossible
    cases hpossible
  | up hup hestablished hdestroyed =>
    obtain ⟨d, hd, hclosed, hopen⟩ := hup.readStage revents readResult
    refine ⟨{ w with conn := d, dispatching := some revents.write },
      by rw [World.step, hd, Option.map_some], ?_⟩
    cases hcloses : closes revents readResult with
    | true => exact .down closeReport (hclosed hcloses) hestablished rfl
    | false => exact .up (hopen hcloses) hestablished hdestroyed
  | down reported hdown =>
    rw [hdown.interest] at hpossible
    cases hpossible

theorem Phase.finishEvent (h : Phase w) (result : WriteResult)
    (hdispatching : w.dispatching ≠ none) :
    ∃ w', w.step (.finishEvent result) = some w' ∧ Phase w' := by
  obtain ⟨write, hwrite⟩ := Option.ne_none_iff_exists'.1 hdispatching
  cases h with
  | waiting _ _ _ hnone => exact absurd hnone hdispatching
  | up hup hestablished hdestroyed =>
    obtain ⟨d, hd, hup⟩ := up_kept.writeStage hup write result
    exact ⟨{ w with conn := d, dispatching := none },
      by rw [World.step, hwrite, Option.bind_some, hd, Option.map_some],
      .up hup hestablished hdestroyed⟩
  | down reported hdown hestablished hreport =>
    exact ⟨{ w with dispatching := none },
      by rw [World.step, hwrite, Option.bind_some, hdown.writeStage, Option.map_some],
      .down reported hdown hestablished hreport⟩

/-- It is the state that decides whether `connectDestroyed` makes the missing report. -/
theorem Phase.destroy (h : Phase w) (hestablished : w.connectEstablished = true) :
    ∃ w', w.destroy = some w' ∧ (w.conn.state_ ≠ .kDisconnecting → Phase w') ∧
      (Paired w' → w.conn.state_ ≠ .kDisconnecting) := by
  cases h with
  | waiting _ hno => cases hno.symm.trans hestablished
  | up hup _ hdestroyed =>
    obtain hstate | hstate := hup.state
    · obtain ⟨d, hd, hdown⟩ := hup.connectDestroyed_of_connected hstate
      refine ⟨{ w with conn := d, connectDestroyed := true },
        by rw [World.destroy, hd, Option.map_some], fun _ ↦ .down _ hdown hestablished rfl,
        fun _ hno ↦ ?_⟩
      cases hstate.symm.trans hno
    · obtain ⟨d, hd, hmilestones⟩ := hup.connectDestroyed_of_disconnecting hstate
      refine ⟨{ w with conn := d, connectDestroyed := true },
        by rw [World.destroy, hd, Option.map_some], fun hno ↦ absurd hstate hno, fun hpaired ↦ ?_⟩
      have hreports : reports d.trace = [true] := by rw [← reports_milestones, hmilestones]; rfl
      have hboth := hpaired rfl (by rw [hreports]; exact List.mem_singleton_self _)
      cases hreports.symm.trans hboth
  | down reported hdown _ hreport =>
    obtain ⟨d, hd, hdown'⟩ := hdown.connectDestroyed
    refine ⟨{ w with conn := d, connectDestroyed := true },
      by rw [World.destroy, hd, Option.map_some], fun _ ↦ .down reported hdown' hestablished hreport,
      fun _ hno ↦ ?_⟩
    cases hdown.state.symm.trans hno

theorem Phase.connectEstablished (h : Phase w) (hestablished : w.connectEstablished = false) :
    ∃ w', w.step .connectEstablished = some w' ∧ Phase w' := by
  cases h with
  | waiting hconn _ hdestroyed =>
    obtain ⟨writeComplete, highWater, mark, hconn⟩ := hconn
    refine ⟨{ w with
      conn := established writeComplete highWater mark
      connectEstablished := true }, ?_, .up (up_established ..) rfl hdestroyed⟩
    rw [World.step, hconn, connectEstablished_create, Option.map_some]
  | up _ hyes => cases hyes.symm.trans hestablished
  | down _ _ hyes => cases hyes.symm.trans hestablished

theorem Phase.step (a : Action) (hlawful : Lawful w a) (h : Phase w) :
    ∃ w', w.step a = some w' ∧ (Heard w a → Phase w') ∧ (Paired w' → Heard w a) := by
  have hkept : (∃ w', w.step a = some w' ∧ Phase w') → Heard w a →
      ∃ w', w.step a = some w' ∧ (Heard w a → Phase w') ∧ (Paired w' → Heard w a) :=
    fun ⟨w', hw', h'⟩ hheard ↦ ⟨w', hw', fun _ ↦ h', fun _ ↦ hheard⟩
  cases a with
  | connectEstablished => exact hkept (h.connectEstablished hlawful) trivial
  | send buf result => exact hkept (h.send buf result) trivial
  | shutdown => exact hkept ⟨_, rfl, h.shutdown⟩ trivial
  | handleEvent revents readResult =>
    exact hkept (h.handleEvent revents readResult hlawful.2) trivial
  | finishEvent result => exact hkept (h.finishEvent result hlawful) trivial
  | queueDestroyed => exact hkept ⟨_, rfl, h.requeue _⟩ trivial
  | runDestroyed => exact (h.requeue _).destroy hlawful.1
  | destroyServer => exact h.destroy hlawful

/-- The reports are paired in every state of a run exactly if `connectDestroyed` never runs on a
connection that is shutting down. -/
theorem paired_iff (writeComplete highWater : Bool) (mark : ℕ) (actions : List Action)
    (hlawful : Along World.step Lawful (start writeComplete highWater mark) actions) :
    (∀ before after, actions = before ++ after →
      ∃ w, run World.step (start writeComplete highWater mark) before = some w ∧ Paired w) ↔
    Along World.step Heard (start writeComplete highWater mark) actions :=
  prefixes_iff (fun _ ↦ Phase.paired) (fun _ ↦ Phase.step)
    (Phase.waiting ⟨writeComplete, highWater, mark, rfl⟩ rfl rfl rfl) hlawful

/-- The peer closes in the end, and the server removes the connection. -/
theorem paired_when_closed :
    ∃ w, run World.step (start false false 0) [.connectEstablished, .send (lit "abc") (.accepted 1),
        .handleEvent ⟨false, false, true, true⟩ (.read (lit "x")), .shutdown,
        .finishEvent (.accepted 2), .handleEvent ⟨true, false, true, false⟩ (.read []),
        .finishEvent .failed, .queueDestroyed, .runDestroyed] = some w ∧ Paired w :=
  (paired_iff false false 0 _ (by decide +kernel)).2 (by decide +kernel) _ []
    (List.append_nil _).symm

/-- The server is destroyed after a shutdown that the peer has not answered. -/
theorem down_not_reported :
    ∃ w, run World.step (start false false 0) [.connectEstablished, .shutdown, .queueDestroyed,
        .runDestroyed] = some w ∧
      w.connectDestroyed = true ∧ reports w.conn.trace = [true] ∧ ¬ Paired w := by
  refine ⟨_, rfl, rfl, by decide +kernel, fun hpaired ↦ ?_⟩
  exact absurd (hpaired rfl (by decide +kernel)) (by decide +kernel)

end CppAiService.ConnectionPairing

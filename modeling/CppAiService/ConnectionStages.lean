import CppAiService.Foundation.Log
import CppAiService.TcpServer

namespace CppAiService.TcpServer

open Foundation.Log

def Functor.conn : Functor → ℕ
  | .connectEstablished i | .removeConnectionInLoop i | .connectDestroyed i => i

def Round.functors : Round → List Functor
  | .execute functors => functors
  | .poll | .dispatch _ | .handling .. => []

def Round.active : Round → List ActiveChannel
  | .dispatch active | .handling _ _ active => active
  | .poll | .execute _ => []

def Round.handles : Round → Option ℕ
  | .handling i _ _ => some i
  | .poll | .dispatch _ | .execute _ => none

def Loop.about (loop : Loop) (i : ℕ) : List Functor :=
  (loop.round.functors ++ loop.pendingFunctors_).filter (·.conn = i)

def Loop.reported (loop : Loop) : List ℕ := loop.round.active.filterMap ActiveChannel.conn?

inductive Stage
  | absent
  | establishing
  | up
  | removing
  | destroying
  | destroyed
  deriving DecidableEq

namespace Stage

def tasks (i : ℕ) (loop l : LoopId) : Stage → List Functor
  | .establishing => if l = loop then [.connectEstablished i] else []
  | .removing => if l = .baseLoop_ then [.removeConnectionInLoop i] else []
  | .destroying => if l = loop then [.connectDestroyed i] else []
  | .absent | .up | .destroyed => []

def listed : Stage → Bool
  | .establishing | .up | .removing => true
  | .absent | .destroying | .destroyed => false

def past : Stage → List Milestone
  | .absent | .establishing => []
  | .up => [.connectEstablished]
  | .removing => [.connectEstablished, .handleClose]
  | .destroying => [.connectEstablished, .handleClose, .removeConnectionInLoop]
  | .destroyed =>
    [.connectEstablished, .handleClose, .removeConnectionInLoop, .connectDestroyed false]

def Conn (conn : TcpConnection) : Stage → Prop
  | .absent => False
  | .establishing => ∃ writeComplete highWater mark, conn = .create writeComplete highWater mark
  | .up => conn.Up
  | .removing | .destroying | .destroyed => conn.Down TcpConnection.closeReport

def milestones : Stage → List Effect
  | .absent | .establishing => []
  | .up => [.connectionCallback true]
  | .removing | .destroying | .destroyed => TcpConnection.closeReport

theorem Conn.milestones_eq {stage : Stage} {conn : TcpConnection} (h : stage.Conn conn) :
    CppAiService.milestones conn.trace = stage.milestones := by
  cases stage with
  | absent => cases h
  | establishing =>
    obtain ⟨writeComplete, highWater, mark, rfl⟩ := h
    rfl
  | up => exact TcpConnection.Up.milestones h
  | removing => exact TcpConnection.Down.milestones h
  | destroying => exact TcpConnection.Down.milestones h
  | destroyed => exact TcpConnection.Down.milestones h

/-- Only a connection that is up is watched. -/
theorem eq_up {stage : Stage} {conn : TcpConnection} (h : stage.Conn conn)
    (hinterest : conn.interest ≠ none) : stage = .up := by
  cases stage with
  | absent => cases h
  | establishing =>
    obtain ⟨writeComplete, highWater, mark, rfl⟩ := h
    exact absurd rfl hinterest
  | up => rfl
  | removing => exact absurd h.interest hinterest
  | destroying => exact absurd h.interest hinterest
  | destroyed => exact absurd h.interest hinterest

variable {stage : Stage} {conn : TcpConnection}

theorem Conn.send (h : stage.Conn conn) (buf : Bytes) (result : WriteResult) :
    ∃ conn', conn.send buf result = some conn' ∧ stage.Conn conn' := by
  cases stage with
  | absent => cases h
  | establishing =>
    obtain ⟨writeComplete, highWater, mark, rfl⟩ := h
    exact ⟨_, rfl, writeComplete, highWater, mark, rfl⟩
  | up => exact TcpConnection.up_kept.send h buf result
  | removing => exact ⟨_, TcpConnection.Down.send h buf result, h⟩
  | destroying => exact ⟨_, TcpConnection.Down.send h buf result, h⟩
  | destroyed => exact ⟨_, TcpConnection.Down.send h buf result, h⟩

theorem Conn.shutdown (h : stage.Conn conn) : stage.Conn conn.shutdown := by
  cases stage with
  | absent => cases h
  | establishing =>
    obtain ⟨writeComplete, highWater, mark, rfl⟩ := h
    exact ⟨writeComplete, highWater, mark, rfl⟩
  | up => exact TcpConnection.up_kept.shutdown h
  | removing => exact (TcpConnection.Down.shutdown h).symm ▸ h
  | destroying => exact (TcpConnection.Down.shutdown h).symm ▸ h
  | destroyed => exact (TcpConnection.Down.shutdown h).symm ▸ h

theorem Conn.writeStage (h : stage.Conn conn) (hstage : stage ≠ .establishing) (write : Bool)
    (result : WriteResult) :
    ∃ conn', conn.writeStage write result = some conn' ∧ stage.Conn conn' := by
  cases stage with
  | absent => cases h
  | establishing => exact absurd rfl hstage
  | up => exact TcpConnection.up_kept.writeStage h write result
  | removing => exact ⟨_, TcpConnection.Down.writeStage h write result, h⟩
  | destroying => exact ⟨_, TcpConnection.Down.writeStage h write result, h⟩
  | destroyed => exact ⟨_, TcpConnection.Down.writeStage h write result, h⟩

end Stage

structure Posted (loops : LoopId → Loop) (i : ℕ) (stage : Stage) (loop : LoopId) : Prop where
  tasks : ∀ l, (loops l).about i = stage.tasks i loop l
  reported : ∀ l, i ∈ (loops l).reported → stage = .up ∧ l = loop
  handled : ∀ l, (loops l).round.handles = some i → stage ≠ .absent ∧ stage ≠ .establishing

structure Recorded (connections_ : Map Bytes ℕ) (i : ℕ) (stage : Stage) (c : Connection) :
    Prop where
  conn : stage.Conn c.conn
  past : c.log.filter (· ≠ .handleEvent) = stage.past
  events : Every (fun earlier e ↦ e = .handleEvent → .connectEstablished ∈ earlier) c.log
  listed : connections_.lookup c.name_ = if stage.listed then some i else none

inductive Tracked (s : TcpServer) (i : ℕ) : Prop
  | absent (missing : s.conns[i]? = none) (posted : Posted s.loops i .absent .baseLoop_)
  | present (c : Connection) (stage : Stage) (found : s.conns[i]? = some c)
      (posted : Posted s.loops i stage c.loop_) (recorded : Recorded s.connections_ i stage c)

/-- Nothing new about the connection: the same tasks, and no more events. -/
structure Quieter (loops loops' : LoopId → Loop) (i : ℕ) : Prop where
  about : ∀ l, (loops' l).about i = (loops l).about i
  reported : ∀ l, i ∈ (loops' l).reported → i ∈ (loops l).reported
  handled : ∀ l, (loops' l).round.handles = some i → (loops l).round.handles = some i

structure Off (loops : LoopId → Loop) (i : ℕ) : Prop where
  about : ∀ l, (loops l).about i = []
  reported : ∀ l, i ∉ (loops l).reported

variable {s : TcpServer} {loops loops' : LoopId → Loop} {i : ℕ} {stage : Stage} {loop l : LoopId}

theorem Quieter.refl (loops : LoopId → Loop) (i : ℕ) : Quieter loops loops i :=
  ⟨fun _ ↦ rfl, fun _ ↦ id, fun _ ↦ id⟩

theorem loops_setRound (s : TcpServer) (l : LoopId) (round : Round) :
    (s.setRound l round).loops l = { s.loops l with round := round } := Function.update_self ..

/-- What holds of the changed loop and of the others as they were holds of all. -/
theorem forall_setLoop {P : LoopId → Loop → Prop} {changed : Loop} (h : P l changed)
    (hothers : ∀ l' ≠ l, P l' (s.loops l')) (l' : LoopId) :
    P l' ((s.setLoop l changed).loops l') := by
  have hcases : (s.setLoop l changed).loops l' = if l' = l then changed else s.loops l' :=
    Function.update_apply ..
  rw [hcases]
  split
  · next heq => exact heq ▸ h
  · next hne => exact hothers l' hne

theorem Quieter.setLoop {changed : Loop} (habout : changed.about i = (s.loops l).about i)
    (hreported : i ∈ changed.reported → i ∈ (s.loops l).reported)
    (hhandled : changed.round.handles = some i → (s.loops l).round.handles = some i) :
    Quieter s.loops (s.setLoop l changed).loops i where
  about := forall_setLoop (P := fun l loop ↦ loop.about i = (s.loops l).about i) habout
    fun _ _ ↦ rfl
  reported := forall_setLoop (P := fun l loop ↦ i ∈ loop.reported → i ∈ (s.loops l).reported)
    hreported fun _ _ ↦ id
  handled := forall_setLoop
    (P := fun l loop ↦ loop.round.handles = some i → (s.loops l).round.handles = some i)
    hhandled fun _ _ ↦ id

theorem about_queue (loop : Loop) (functor : Functor) (i : ℕ) :
    Loop.about { loop with pendingFunctors_ := loop.pendingFunctors_ ++ [functor] } i =
      loop.about i ++ if functor.conn = i then [functor] else [] := by
  have hlast : [functor].filter (·.conn = i) = if functor.conn = i then [functor] else [] := by
    by_cases hconn : functor.conn = i
    · simp [hconn]
    · simp [hconn]
  rw [Loop.about, Loop.about, ← List.append_assoc, List.filter_append, hlast]

theorem Quieter.queueInLoop {functor : Functor} (hne : functor.conn ≠ i) (l : LoopId) :
    Quieter s.loops (s.queueInLoop l functor).loops i := by
  refine Quieter.setLoop ?_ id id
  rw [about_queue, if_neg hne, List.append_nil]

theorem Posted.quieter (h : Posted loops i stage loop) (hquieter : Quieter loops loops' i) :
    Posted loops' i stage loop where
  tasks l := (hquieter.about l).trans (h.tasks l)
  reported l hmem := h.reported l (hquieter.reported l hmem)
  handled l hhandles := h.handled l (hquieter.handled l hhandles)

theorem Off.posted (h : Off loops i) (hnone : ∀ l, stage.tasks i loop l = [])
    (hhandled : ∀ l, (loops l).round.handles = some i → stage ≠ .absent ∧ stage ≠ .establishing) :
    Posted loops i stage loop where
  tasks l := (h.about l).trans (hnone l).symm
  reported l hmem := absurd hmem (h.reported l)
  handled := hhandled

/-- A task is queued for a connection that nothing is left to do for. -/
theorem Off.queue (h : Off s.loops i) {functor : Functor} (hconn : functor.conn = i)
    (htasks : ∀ l', stage.tasks i loop l' = if l' = l then [functor] else [])
    (hhandled : ∀ l, (s.loops l).round.handles = some i →
      stage ≠ .absent ∧ stage ≠ .establishing) :
    Posted (s.queueInLoop l functor).loops i stage loop := by
  refine ⟨?_, ?_, ?_⟩
  · refine forall_setLoop (P := fun l loop' ↦ loop'.about i = stage.tasks i loop l) ?_ ?_
    · rw [about_queue, h.about, if_pos hconn, htasks, if_pos rfl, List.nil_append]
    · intro l' hne
      rw [h.about, htasks, if_neg hne]
  · exact forall_setLoop (P := fun l loop' ↦ i ∈ loop'.reported → stage = .up ∧ l = loop)
      (fun hmem ↦ absurd hmem (h.reported l)) fun l' _ hmem ↦ absurd hmem (h.reported l')
  · exact forall_setLoop (P := fun _ loop' ↦ loop'.round.handles = some i → _) (hhandled l)
      fun l' _ ↦ hhandled l'

theorem Stage.tasks_eq_cons {functor : Functor} {rest : List Functor}
    (h : stage.tasks i loop l = functor :: rest) :
    rest = [] ∧ stage ≠ .up ∧ ∀ l' ≠ l, stage.tasks i loop l' = [] := by
  have hif : ∀ {target : LoopId} {task : Functor}, (if l = target then [task] else []) =
      functor :: rest → rest = [] ∧ ∀ l' ≠ l, (if l' = target then [task] else []) = [] := by
    intro target task h
    split at h
    · next heq =>
      cases h
      exact ⟨rfl, fun l' hne ↦ if_neg (heq ▸ hne)⟩
    · cases h
  cases stage with
  | absent => cases h
  | establishing => exact ⟨(hif h).1, nofun, (hif h).2⟩
  | up => cases h
  | removing => exact ⟨(hif h).1, nofun, (hif h).2⟩
  | destroying => exact ⟨(hif h).1, nofun, (hif h).2⟩
  | destroyed => cases h

theorem Stage.eq_of_tasks {functor : Functor} (h : stage.tasks i loop l = [functor]) :
    match functor with
    | .connectEstablished _ => stage = .establishing
    | .removeConnectionInLoop _ => stage = .removing
    | .connectDestroyed _ => stage = .destroying ∧ loop = l := by
  cases stage with
  | absent => cases h
  | establishing =>
    rw [tasks] at h
    split at h
    · cases h
      rfl
    · cases h
  | up => cases h
  | removing =>
    rw [tasks] at h
    split at h
    · cases h
      rfl
    · cases h
  | destroying =>
    rw [tasks] at h
    split at h
    · next heq =>
      cases h
      exact ⟨rfl, heq.symm⟩
    · cases h
  | destroyed => cases h

/-- The task at the front of a batch is the only one about its connection. -/
theorem Posted.run (h : Posted s.loops i stage loop) {functor : Functor} {functors : List Functor}
    (hround : (s.loops l).round = .execute (functor :: functors)) (hconn : functor.conn = i) :
    stage.tasks i loop l = [functor] ∧ Off (s.setRound l (.execute functors)).loops i := by
  have htasks : stage.tasks i loop l =
      functor :: (functors ++ (s.loops l).pendingFunctors_).filter (·.conn = i) := by
    rw [← h.tasks, Loop.about, hround]
    exact List.filter_cons_of_pos (decide_eq_true hconn)
  obtain ⟨hrest, hne, hothers⟩ := Stage.tasks_eq_cons htasks
  refine ⟨hrest ▸ htasks, ?_, ?_⟩
  · exact forall_setLoop (P := fun _ loop' ↦ loop'.about i = []) hrest
      fun l' hl' ↦ (h.tasks l').trans (hothers l' hl')
  · exact forall_setLoop (P := fun _ loop' ↦ i ∉ loop'.reported) List.not_mem_nil
      fun l' _ hmem ↦ hne (h.reported l' hmem).1

/-- An event at the front of the list is the only one of its connection. -/
theorem Posted.handle (h : Posted s.loops i stage loop) (hnodup : (s.loops l).reported.Nodup)
    {revents : Revents} {active : List ActiveChannel}
    (hround : (s.loops l).round = .dispatch (.connection i revents :: active)) :
    stage = .up ∧ l = loop ∧ Off (s.setRound l (.handling i revents.write active)).loops i := by
  have hreported : (s.loops l).reported = i :: active.filterMap ActiveChannel.conn? := by
    rw [Loop.reported, hround]
    rfl
  obtain ⟨rfl, rfl⟩ := h.reported l (hreported ▸ List.mem_cons_self)
  refine ⟨rfl, rfl, ?_, ?_⟩
  · refine forall_setLoop (P := fun _ loop' ↦ loop'.about i = []) ?_ fun l' _ ↦ h.tasks l'
    have hnone := h.tasks l
    rwa [Loop.about, hround] at hnone
  · refine forall_setLoop (P := fun _ loop' ↦ i ∉ loop'.reported) ?_ ?_
    · exact (List.nodup_cons.1 (hreported ▸ hnodup)).1
    · exact fun l' hne hmem ↦ hne (h.reported l' hmem).2

theorem Tracked.quieter {s' : TcpServer} (h : Tracked s i) (hquieter : Quieter s.loops s'.loops i)
    (hconns : s'.conns[i]? = s.conns[i]?)
    (hlookup : ∀ c, s.conns[i]? = some c →
      s'.connections_.lookup c.name_ = s.connections_.lookup c.name_) : Tracked s' i := by
  cases h with
  | absent hmissing hposted => exact .absent (hconns.trans hmissing) (hposted.quieter hquieter)
  | present c stage hfound hposted hrecorded =>
    refine .present c stage (hconns.trans hfound) (hposted.quieter hquieter) ?_
    exact ⟨hrecorded.conn, hrecorded.past, hrecorded.events,
      (hlookup c hfound).trans hrecorded.listed⟩

end CppAiService.TcpServer

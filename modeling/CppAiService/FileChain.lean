import CppAiService.FileSend
import CppAiService.Foundation.Outputs

namespace CppAiService.FileSend

open Foundation.Log Foundation.Run TcpConnection

/-- A call of `sendFile` on the loop's thread, or on another one, whose task is then queued. -/
def World.sendFileFrom (files : ℕ → Bytes) (w : World) (inLoopThread : Bool)
    (fileDescriptor offset count : ℕ) (result : WriteResult) : World :=
  if inLoopThread then w.sendFile .linux files fileDescriptor offset count result
  else if w.conn.connected then
    { w with
      sendFiles := w.sendFiles + 1
      sent := w.sent ++ range (files fileDescriptor) offset count }.queueInLoop
        ⟨fileDescriptor, offset, count, w.sendFiles⟩
  else w

def ran (call : ℕ) (w : World) : Action → List Task
  | .runFunctor _ => w.functors.head?.toList.filter fun task ↦ task.call = call
  | _ => []

def TakesAll (offered : ℕ) : WriteResult → Prop
  | .accepted n => offered ≤ n
  | .wouldBlock | .peerGone | .failed => False

/-- The connection stays connected and its socket takes every byte, so the poller reports a write
event before the functors' next round. -/
def Accepting (files : ℕ → Bytes) (w : World) : Action → Prop
  | .send buf result => TakesAll buf.length result
  | .sendFile fileDescriptor offset count result =>
    TakesAll (range (files fileDescriptor) offset count).length result
  | .shutdown => False
  | .handleWrite result => w.functors = [] ∧ TakesAll w.conn.outputBuffer_.readableBytes result
  | .swapFunctors => w.functors = [] ∧ w.conn.channel_.isWriting = false
  | .runFunctor result => ∃ task ∈ w.functors.head?, TakesAll (task.bytes files).length result

instance (offered : ℕ) : DecidablePred (TakesAll offered)
  | .accepted _ => inferInstanceAs (Decidable (_ ≤ _))
  | .wouldBlock | .peerGone | .failed => inferInstanceAs (Decidable False)

instance (files : ℕ → Bytes) (w : World) : DecidablePred (Accepting files w)
  | .send .. | .sendFile .. => inferInstanceAs (Decidable (TakesAll _ _))
  | .shutdown => inferInstanceAs (Decidable False)
  | .handleWrite _ | .swapFunctors => inferInstanceAs (Decidable (_ ∧ _))
  | .runFunctor _ => inferInstanceAs (Decidable (∃ task ∈ w.functors.head?, TakesAll _ _))

variable {files : ℕ → Bytes} {w w' : World} {task : Task} {call : ℕ} {result : WriteResult}

section Connection

variable {c d : TcpConnection}

theorem direct_iff (h : c.Ready) : Direct c ↔ c.channel_.isWriting = false := by
  refine and_iff_left_of_imp fun hwriting ↦ ?_
  rw [Buffer.readableBytes_eq_zero_iff, ← not_not (a := c.outputBuffer_.readable = []), ← ne_eq,
    ← h.writing_iff, hwriting]
  exact Bool.false_ne_true

theorem sendInLoop_ready (h : c.Ready) {data : Bytes} (hd : c.sendInLoop data result = some d) :
    d.Ready := by
  by_cases hresult : result = .peerGone
  · subst hresult
    by_cases hdirect : c.channel_.isWriting = false ∧ c.outputBuffer_.readableBytes = 0
    · rw [sendInLoop_peerGone hdirect, Option.some.injEq] at hd
      exact hd ▸ h
    · have hsame : c.sendInLoop data .peerGone = c.sendInLoop data .wouldBlock := by
        simp only [sendInLoop, if_neg hdirect]
      have hresult : WriteResult.wouldBlock ≠ .peerGone := by simp
      obtain ⟨e, he, hflows⟩ := sendInLoop_flows h data hresult
      obtain rfl := Option.some.inj ((hsame.trans he).symm.trans hd)
      exact hflows.ready
  · obtain ⟨e, he, hflows⟩ := sendInLoop_flows h data hresult
    obtain rfl := Option.some.inj (he.symm.trans hd)
    exact hflows.ready

theorem send_ready (h : c.Ready) {buf : Bytes} (hd : c.send buf result = some d) : d.Ready := by
  rw [TcpConnection.send] at hd
  split at hd
  · exact sendInLoop_ready h hd
  · exact Option.some.inj hd ▸ h

theorem shutdown_ready (h : c.Ready) : c.shutdown.Ready := by
  rw [TcpConnection.shutdown]
  split
  · rw [shutdownInLoop]
    split
    · exact h.congr rfl rfl rfl
    · exact h.congr rfl rfl rfl
  · exact h

theorem handleWrite_ready (h : c.Ready) (hd : c.handleWrite result = some d) : d.Ready := by
  obtain ⟨e, hflows, he | ⟨he, -⟩⟩ := handleWrite_flows h result
  · exact Option.some.inj (he.symm.trans hd) ▸ hflows.ready
  · exact Option.some.inj (he.symm.trans hd) ▸ hflows.ready.congr rfl rfl rfl

theorem handleWrite_connected (h : c.Ready) (hc : c.state_ = .kConnected) (result : WriteResult) :
    ∃ d, c.handleWrite result = some d ∧ d.state_ = .kConnected := by
  obtain ⟨d, hflows, hd | ⟨-, hstate, -⟩⟩ := handleWrite_flows h result
  · exact ⟨d, hd, hflows.state_.trans hc⟩
  · cases hc.symm.trans (hflows.state_.symm.trans hstate)

/-- A write event on a socket that takes all. -/
theorem handleWrite_all (h : c.Ready)
    (hall : TakesAll c.outputBuffer_.readableBytes result) (hd : c.handleWrite result = some d) :
    d.channel_.isWriting = false := by
  cases result with
  | accepted n =>
    have hn : min n c.outputBuffer_.readableBytes = c.outputBuffer_.readableBytes :=
      Nat.min_eq_right hall
    cases hwriting : c.channel_.isWriting with
    | false =>
      simp only [TcpConnection.handleWrite, hwriting, Bool.false_eq_true, if_false,
        Option.some.injEq] at hd
      exact hd ▸ hwriting
    | true =>
      have hpos : c.outputBuffer_.readableBytes ≠ 0 := fun hzero ↦
        h.writing_iff.1 hwriting ((Buffer.readableBytes_eq_zero_iff _).1 hzero)
      have hempty : (c.retrieveWritten c.outputBuffer_.readableBytes).outputBuffer_.readable =
          [] := by
        rw [readable_retrieveWritten, List.drop_eq_nil_iff, Buffer.length_readable]
      have hzero := (Buffer.readableBytes_eq_zero_iff _).2 hempty
      obtain ⟨e, hflows, hnil, hdrained⟩ := drained_spec h le_rfl hempty
      simp only [TcpConnection.handleWrite, hwriting, if_true, hn, if_neg hpos, if_pos hzero,
        hdrained, Option.some.injEq] at hd
      have hwriting : e.channel_.isWriting = false := by
        rw [← Bool.not_eq_true, hflows.ready.writing_iff]
        exact not_not_intro hnil
      subst hd
      split
      · exact hwriting
      · exact hwriting
  | wouldBlock => exact hall.elim
  | peerGone => exact hall.elim
  | failed => exact hall.elim

theorem sendInLoop_all {data : Bytes} (h : c.Ready) (hwriting : c.channel_.isWriting = false)
    (hall : TakesAll data.length result) (hd : c.sendInLoop data result = some d) :
    d.channel_.isWriting = false := by
  cases result with
  | accepted n =>
    have hn : min n data.length = data.length := Nat.min_eq_right hall
    have hdirect : c.channel_.isWriting = false ∧ c.outputBuffer_.readableBytes = 0 :=
      (direct_iff h).2 hwriting
    simp only [sendInLoop, if_pos hdirect, writeDirectly, hn, Nat.sub_self, lt_irrefl, and_false,
      if_false, Option.some.injEq] at hd
    exact hd ▸ hwriting
  | wouldBlock => exact hall.elim
  | peerGone => exact hall.elim
  | failed => exact hall.elim

end Connection

theorem mem_left {other : Task} (h : other ∈ left task) : other = task := by
  rw [left] at h
  split at h
  · exact List.mem_singleton.1 h
  · cases h

/-- A task of the call has been run: what it queued goes back to the same call. -/
def Ran (w : World) (call : ℕ) (w' : World) : Prop :=
  ∃ conn new, w' = { w with
      conn := conn
      pendingFunctors_ := w.pendingFunctors_ ++ new } ∧
    conn.Ready ∧ conn.state_ = w.conn.state_ ∧ conn.channel_ = w.conn.channel_ ∧
    ∀ other ∈ new, other.call = call

theorem sendFileInLoop_ran (platform : Platform) (files : ℕ → Bytes) (h : w.conn.Ready)
    (task : Task) (result : WriteResult) :
    Ran w task.call (w.sendFileInLoop platform files task result) := by
  have hleft : ∀ n, ∀ other ∈ left (task.rest platform n), other.call = task.call :=
    fun n other hother ↦ by rw [mem_left hother]; rfl
  have hrequeue : Ran w task.call (w.requeue task) :=
    ⟨w.conn, _, requeue_eq w task, h, rfl, rfl, rest_zero platform task ▸ hleft 0⟩
  have hnothing : Ran w task.call w := by
    refine ⟨w.conn, [], ?_, h, rfl, rfl, fun _ hmem ↦ absurd hmem List.not_mem_nil⟩
    rw [List.append_nil]
  unfold World.sendFileInLoop
  split
  · exact hnothing
  · split
    · cases result with
      | accepted n =>
        dsimp only
        rw [requeue_eq]
        exact ⟨_, _, rfl, h.congr rfl rfl rfl, rfl, rfl, hleft _⟩
      | wouldBlock => exact hrequeue
      | peerGone => exact hnothing
      | failed => exact hrequeue
    · exact hrequeue

/-- One round of the chain: the task sends what the file still has of its range. -/
theorem sendFileInLoop_direct (h : w.conn.Ready) (hstate : w.conn.state_ = .kConnected)
    (hwriting : w.conn.channel_.isWriting = false)
    (hall : TakesAll (task.bytes files).length result) :
    ∃ conn, w.sendFileInLoop .linux files task result = { w with
        conn := conn
        pendingFunctors_ := w.pendingFunctors_ ++
          left (task.rest .linux (task.bytes files).length) } ∧
      conn.Ready ∧ conn.state_ = .kConnected ∧ conn.channel_ = w.conn.channel_ := by
  have hopen : ¬ w.conn.state_ = .kDisconnecting := by rw [hstate]; exact nofun
  cases result with
  | accepted n =>
    have hbytes : range (files task.fileDescriptor) task.offset (min n task.count) =
        task.bytes files := by
      rw [Task.bytes, range, range, ← List.take_take, List.take_of_length_le]
      exact hall
    unfold World.sendFileInLoop
    rw [if_neg hopen, if_pos ((direct_iff h).2 hwriting)]
    dsimp only
    rw [hbytes, requeue_eq]
    exact ⟨_, rfl, h.congr rfl rfl rfl, hstate, rfl⟩
  | wouldBlock => exact hall.elim
  | peerGone => exact hall.elim
  | failed => exact hall.elim

theorem sendFileInLoop_waits (hstate : w.conn.state_ = .kConnected)
    (hwriting : w.conn.channel_.isWriting = true) (platform : Platform) (files : ℕ → Bytes)
    (task : Task) (result : WriteResult) :
    w.sendFileInLoop platform files task result =
      { w with pendingFunctors_ := w.pendingFunctors_ ++ left task } := by
  have hopen : ¬ w.conn.state_ = .kDisconnecting := by rw [hstate]; exact nofun
  have hbuffered : ¬ Direct w.conn := fun hdirect ↦ by cases hwriting.symm.trans hdirect.1
  unfold World.sendFileInLoop
  rw [if_neg hopen, if_neg hbuffered, requeue_eq]

structure Numbered (w : World) : Prop where
  ready : w.conn.Ready
  calls : ∀ task ∈ w.tasks, task.call < w.sendFiles

theorem Numbered.sendFileInLoop (h : Numbered w) (hcall : task.call < w.sendFiles)
    (platform : Platform) (files : ℕ → Bytes) (result : WriteResult) :
    Numbered (w.sendFileInLoop platform files task result) := by
  obtain ⟨conn, new, heq, hready, -, -, hnew⟩ :=
    sendFileInLoop_ran platform files h.ready task result
  rw [heq]
  refine ⟨hready, fun other hother ↦ ?_⟩
  rw [World.tasks, ← List.append_assoc, List.mem_append] at hother
  obtain hother | hother := hother
  · exact h.calls other hother
  · exact hnew other hother ▸ hcall

theorem Numbered.called (h : Numbered w) (bytes : Bytes) :
    Numbered { w with sendFiles := w.sendFiles + 1, sent := w.sent ++ bytes } :=
  ⟨h.ready, fun task htask ↦ (h.calls task htask).trans (Nat.lt_succ_self _)⟩

theorem Numbered.step {platform : Platform} (h : Numbered w) {a : Action}
    (hstep : w.step platform files a = some w') : Numbered w' := by
  cases a with
  | send buf result =>
    obtain ⟨conn, hconn, rfl⟩ := Option.map_eq_some_iff.1 hstep
    exact ⟨send_ready h.ready hconn, h.calls⟩
  | sendFile fileDescriptor offset count result =>
    obtain rfl := Option.some.inj hstep
    rw [World.sendFile]
    split
    · exact (h.called _).sendFileInLoop (Nat.lt_succ_self _) ..
    · exact h
  | shutdown =>
    obtain rfl := Option.some.inj hstep
    exact ⟨shutdown_ready h.ready, h.calls⟩
  | handleWrite result =>
    rw [World.step] at hstep
    split at hstep
    · obtain ⟨conn, hconn, rfl⟩ := Option.map_eq_some_iff.1 hstep
      exact ⟨handleWrite_ready h.ready hconn, h.calls⟩
    · cases hstep
  | swapFunctors =>
    rw [World.step] at hstep
    split at hstep
    · obtain rfl := Option.some.inj hstep
      refine ⟨h.ready, fun task htask ↦ h.calls task ?_⟩
      rw [World.tasks, List.append_nil] at htask
      exact List.mem_append_right _ htask
    · cases hstep
  | runFunctor result =>
    cases hfunctors : w.functors with
    | nil =>
      rw [World.step, hfunctors] at hstep
      cases hstep
    | cons task functors =>
      rw [World.step, hfunctors] at hstep
      obtain rfl := Option.some.inj hstep
      have hcalls := h.calls
      rw [World.tasks, hfunctors, List.cons_append] at hcalls
      obtain ⟨hcall, hcalls⟩ := List.forall_mem_cons.1 hcalls
      have hrest : Numbered { w with functors := functors } := ⟨h.ready, hcalls⟩
      exact hrest.sendFileInLoop hcall ..

theorem numbered_start (writeComplete highWater : Bool) (mark : ℕ) :
    Numbered (start (established writeComplete highWater mark)) :=
  ⟨(delivering_established ..).ready, fun _ hmem ↦ absurd hmem List.not_mem_nil⟩

def pending (call : ℕ) (w : World) : List Task := w.tasks.filter fun task ↦ task.call = call

/-- A connected connection, and a task of the call that is due to run finds nothing buffered. -/
structure Due (call : ℕ) (w : World) : Prop where
  ready : w.conn.Ready
  connected : w.conn.state_ = .kConnected
  called : call < w.sendFiles
  direct : (∃ task ∈ w.functors, task.call = call) → w.conn.channel_.isWriting = false

/-- An action leaves the queued tasks of the call alone, or runs the first of them. -/
def Moves (files : ℕ → Bytes) (call : ℕ) (w : World) (a : Action) (w' : World) : Prop :=
  (ran call w a = [] ∧ pending call w' = pending call w) ∨
    ∃ task others, ran call w a = [task] ∧ pending call w = task :: others ∧
      pending call w' = others ++ left (task.rest .linux (task.bytes files).length)

theorem pending_queued (w : World) (conn : TcpConnection) (new : List Task) :
    pending call { w with conn := conn, pendingFunctors_ := w.pendingFunctors_ ++ new } =
      pending call w ++ new.filter fun task ↦ task.call = call := by
  rw [pending, World.tasks, ← List.append_assoc, List.filter_append]
  rfl

theorem pending_other (w : World) (conn : TcpConnection) {new : List Task}
    (hnew : ∀ other ∈ new, other.call ≠ call) :
    pending call { w with conn := conn, pendingFunctors_ := w.pendingFunctors_ ++ new } =
      pending call w := by
  have hnil : new.filter (fun task ↦ task.call = call) = [] := by
    rw [List.filter_eq_nil_iff]
    exact fun other hother ↦ by simpa using hnew other hother
  rw [pending_queued, hnil, List.append_nil]

theorem Due.other (h : Due call w) (files : ℕ → Bytes) (hcall : task.call ≠ call)
    (result : WriteResult) :
    Due call (w.sendFileInLoop .linux files task result) ∧
      pending call (w.sendFileInLoop .linux files task result) = pending call w := by
  obtain ⟨conn, new, heq, hready, hstate, hchannel, hnew⟩ :=
    sendFileInLoop_ran .linux files h.ready task result
  rw [heq]
  refine ⟨⟨hready, hstate.trans h.connected, h.called, fun hdue ↦ ?_⟩, ?_⟩
  · exact hchannel ▸ h.direct hdue
  · exact pending_other w conn fun other hother ↦ hnew other hother ▸ hcall

theorem Due.own (h : Due call w) (hcall : task.call = call)
    (hwriting : w.conn.channel_.isWriting = false)
    (hall : TakesAll (task.bytes files).length result) :
    Due call (w.sendFileInLoop .linux files task result) ∧
      pending call (w.sendFileInLoop .linux files task result) =
        pending call w ++ left (task.rest .linux (task.bytes files).length) := by
  obtain ⟨conn, heq, hready, hstate, hchannel⟩ :=
    sendFileInLoop_direct h.ready h.connected hwriting hall
  have hleft : (left (task.rest .linux (task.bytes files).length)).filter
      (fun other ↦ other.call = call) = left (task.rest .linux (task.bytes files).length) := by
    rw [List.filter_eq_self]
    exact fun other hother ↦ decide_eq_true (by rw [mem_left hother, ← hcall]; rfl)
  rw [heq]
  refine ⟨⟨hready, hstate, h.called, fun _ ↦ hchannel ▸ hwriting⟩, ?_⟩
  rw [pending_queued, hleft]

theorem Due.run (h : Due call w) {functors : List Task} (hfunctors : w.functors = task :: functors)
    (hall : TakesAll (task.bytes files).length result) :
    ∃ w', w.step .linux files (.runFunctor result) = some w' ∧ Due call w' ∧
      w'.functors = functors ∧ Moves files call w (.runFunctor result) w' := by
  let w₁ : World := { w with functors := functors }
  have hstep : w.step .linux files (.runFunctor result) =
      some (w₁.sendFileInLoop .linux files task result) := by
    simp only [World.step, hfunctors, w₁]
  have hmem : ∀ other ∈ functors, other ∈ w.functors := fun other hother ↦
    hfunctors ▸ List.mem_cons_of_mem _ hother
  have hrest : Due call w₁ := by
    refine ⟨h.ready, h.connected, h.called, ?_⟩
    rintro ⟨other, hother, hcall⟩
    exact h.direct ⟨other, hmem other hother, hcall⟩
  have hkept : (w₁.sendFileInLoop .linux files task result).functors = functors := by
    obtain ⟨conn, new, heq, -⟩ := sendFileInLoop_ran .linux files hrest.ready task result
    rw [heq]
  refine ⟨_, hstep, ?_⟩
  by_cases hcall : task.call = call
  · have hwriting := h.direct ⟨task, hfunctors ▸ List.mem_cons_self, hcall⟩
    obtain ⟨hdue, hpending⟩ := hrest.own hcall hwriting hall
    refine ⟨hdue, hkept, .inr ⟨task, pending call w₁, ?_, ?_, hpending⟩⟩
    · simp [ran, hfunctors, hcall]
    · simp [pending, World.tasks, hfunctors, hcall, w₁]
  · obtain ⟨hdue, hpending⟩ := hrest.other files hcall result
    refine ⟨hdue, hkept, .inl ⟨?_, hpending.trans ?_⟩⟩
    · simp [ran, hfunctors, hcall]
    · simp [pending, World.tasks, hfunctors, hcall, w₁]

/-- What an action does to the chain of a call. -/
theorem Due.step (h : Due call w) {a : Action} (ha : Accepting files w a) :
    ∃ w', w.step .linux files a = some w' ∧ Due call w' ∧ Moves files call w a w' := by
  have hconnected : w.conn.connected = true := decide_eq_true h.connected
  cases a with
  | send buf result =>
    have hresult : result ≠ .peerGone := fun heq ↦ (heq ▸ ha : TakesAll buf.length .peerGone)
    obtain ⟨conn, hconn, hflows⟩ := sendInLoop_flows h.ready buf hresult
    refine ⟨{ w with conn := conn, sent := w.sent ++ buf }, ?_,
      ⟨hflows.ready, hflows.state_.trans h.connected, h.called, fun hdue ↦ ?_⟩, .inl ⟨rfl, rfl⟩⟩
    · simp only [World.step, TcpConnection.send, hconnected, hconn, if_true, Option.map_some]
    · exact sendInLoop_all h.ready (h.direct hdue) ha hconn
  | sendFile fileDescriptor offset count result =>
    have hcalled : Due call { w with
        sendFiles := w.sendFiles + 1
        sent := w.sent ++ range (files fileDescriptor) offset count } :=
      ⟨h.ready, h.connected, h.called.trans (Nat.lt_succ_self _), h.direct⟩
    let task : Task := ⟨fileDescriptor, offset, count, w.sendFiles⟩
    have hcall : task.call ≠ call := h.called.ne'
    obtain ⟨hdue, hpending⟩ := hcalled.other files hcall result
    refine ⟨_, rfl, ?_⟩
    rw [World.sendFile, if_pos hconnected]
    exact ⟨hdue, .inl ⟨rfl, hpending⟩⟩
  | shutdown => exact ha.elim
  | handleWrite result =>
    obtain ⟨hnil, hall⟩ := ha
    obtain ⟨conn, hconn, hstate⟩ := handleWrite_connected h.ready h.connected result
    refine ⟨{ w with conn := conn }, ?_, ⟨handleWrite_ready h.ready hconn, hstate, h.called, ?_⟩,
      .inl ⟨rfl, rfl⟩⟩
    · rw [World.step, if_pos (List.isEmpty_iff.2 hnil), hconn, Option.map_some]
    · exact fun _ ↦ handleWrite_all h.ready hall hconn
  | swapFunctors =>
    obtain ⟨hnil, hwriting⟩ := ha
    refine ⟨_, if_pos (List.isEmpty_iff.2 hnil), ⟨h.ready, h.connected, h.called, fun _ ↦ hwriting⟩,
      .inl ⟨rfl, ?_⟩⟩
    rw [pending, pending, World.tasks, World.tasks, hnil, List.append_nil, List.nil_append]
  | runFunctor result =>
    obtain ⟨task, hhead, hall⟩ := ha
    obtain ⟨functors, hfunctors⟩ := List.head?_eq_some_iff.1 hhead
    obtain ⟨w', hstep, hdue, -, hmoves⟩ := h.run hfunctors hall
    exact ⟨w', hstep, hdue, hmoves⟩

def available (files : ℕ → Bytes) (task : Task) : ℕ :=
  (files task.fileDescriptor).length - task.offset

theorem length_bytes (files : ℕ → Bytes) (task : Task) :
    (task.bytes files).length = min task.count (available files task) := by
  rw [Task.bytes, range, List.length_take, List.length_drop, available]

theorem left_of_fits (h : task.count ≤ available files task) :
    left (task.rest .linux (task.bytes files).length) = [] := by
  rw [length_bytes, Nat.min_eq_left h, left, if_neg]
  simp [Task.rest]

/-- Past the end of the file nothing is sent any more, and the task is queued as it is. -/
theorem left_of_past (h : available files task < task.count) :
    ∃ rest, left (task.rest .linux (task.bytes files).length) = [rest] ∧ rest.call = task.call ∧
      available files rest < rest.count := by
  rw [length_bytes, Nat.min_eq_right h.le, left, if_pos]
  · refine ⟨_, rfl, rfl, ?_⟩
    simp only [available, Task.rest] at h ⊢
    omega
  · exact Nat.sub_pos_of_lt h

def Fits (files : ℕ → Bytes) (call : ℕ) (w : World) : Prop :=
  Due call w ∧ ∀ task ∈ pending call w, task.count ≤ available files task

theorem Fits.step (h : Fits files call w) {a : Action} (ha : Accepting files w a)
    (hstep : w.step .linux files a = some w') :
    Fits files call w' ∧ (ran call w a).length + (pending call w').length ≤
      (pending call w).length := by
  obtain ⟨h, hfits⟩ := h
  obtain ⟨v, hv, hdue, hmoves⟩ := h.step ha
  obtain rfl := Option.some.inj (hv.symm.trans hstep)
  obtain ⟨hran, hpending⟩ | ⟨task, others, hran, hpending, hpending'⟩ := hmoves
  · rw [Fits, hran, hpending]
    exact ⟨⟨hdue, hfits⟩, (Nat.zero_add _).le⟩
  · rw [hpending] at hfits
    obtain ⟨hfirst, hothers⟩ := List.forall_mem_cons.1 hfits
    rw [left_of_fits hfirst, List.append_nil] at hpending'
    rw [Fits, hran, hpending', hpending]
    exact ⟨⟨hdue, hothers⟩, (Nat.add_comm ..).le⟩

theorem Fits.ends (h : Fits files call w) :
    Ends (World.step .linux files) (Accepting files) (ran call) w :=
  ends_of_budget (fun w ↦ (pending call w).length)
    (fun _ _ _ ha (h : Fits files call _) hstep ↦ h.step ha hstep) h

/-- Some task of the call asks for more than its file holds. -/
def Past (files : ℕ → Bytes) (call : ℕ) (w : World) : Prop :=
  Due call w ∧ ∃ task ∈ pending call w, available files task < task.count

theorem Past.step (h : Past files call w) {a : Action} (ha : Accepting files w a)
    (hstep : w.step .linux files a = some w') : Past files call w' := by
  obtain ⟨h, task, hmem, hpast⟩ := h
  obtain ⟨v, hv, hdue, hmoves⟩ := h.step ha
  obtain rfl := Option.some.inj (hv.symm.trans hstep)
  refine ⟨hdue, ?_⟩
  obtain ⟨-, hpending⟩ | ⟨first, others, -, hpending, hpending'⟩ := hmoves
  · exact ⟨task, hpending ▸ hmem, hpast⟩
  · rw [hpending, List.mem_cons] at hmem
    rw [hpending']
    obtain rfl | hmem := hmem
    · obtain ⟨rest, hrest, -, hpast⟩ := left_of_past hpast
      exact ⟨rest, List.mem_append_right _ (hrest ▸ List.mem_cons_self), hpast⟩
    · exact ⟨task, List.mem_append_left _ hmem, hpast⟩

/-- The loop runs all functors of its round. -/
theorem Due.finish (h : Due call w) :
    ∃ as w', Reaches (World.step .linux files) (Accepting files) w as w' ∧ w'.functors = [] ∧
      ((∃ task ∈ w.functors, task.call = call) →
        outputs (World.step .linux files) (ran call) w as ≠ []) := by
  generalize hfunctors : w.functors = functors
  induction functors generalizing w with
  | nil =>
    refine ⟨[], w, .nil w, hfunctors, ?_⟩
    rintro ⟨task, htask, -⟩
    cases htask
  | cons task functors ih =>
    have hall : TakesAll (task.bytes files).length (.accepted (task.bytes files).length) := le_rfl
    have ha : Accepting files w (.runFunctor (.accepted (task.bytes files).length)) :=
      ⟨task, by rw [hfunctors]; rfl, hall⟩
    obtain ⟨w₁, hstep, hdue, hrest, -⟩ := h.run hfunctors hall
    obtain ⟨as, w', hreaches, hnil, hout⟩ := ih hdue hrest
    refine ⟨_, w', .cons ha hstep hreaches, hnil, ?_⟩
    rintro ⟨other, hother, hcall⟩
    rw [outputs_cons hstep]
    obtain rfl | hother := List.mem_cons.1 hother
    · apply List.append_ne_nil_of_left_ne_nil
      simp [ran, hfunctors, hcall]
    · exact List.append_ne_nil_of_right_ne_nil _ (hout ⟨other, hother, hcall⟩)

theorem Due.writeEvent (h : Due call w) (hnil : w.functors = []) :
    ∃ w', Reaches (World.step .linux files) (Accepting files) w
        [.handleWrite (.accepted w.conn.outputBuffer_.readableBytes), .swapFunctors] w' ∧
      w'.functors = w.tasks ∧ w'.pendingFunctors_ = [] := by
  have hall : TakesAll w.conn.outputBuffer_.readableBytes
      (.accepted w.conn.outputBuffer_.readableBytes) := le_rfl
  obtain ⟨conn, hconn, -⟩ := handleWrite_connected h.ready h.connected
    (.accepted w.conn.outputBuffer_.readableBytes)
  have hempty := List.isEmpty_iff.2 hnil
  let w₁ : World := { w with conn := conn }
  have hwrite : w.step .linux files
      (.handleWrite (.accepted w.conn.outputBuffer_.readableBytes)) = some w₁ := by
    rw [World.step, if_pos hempty, hconn, Option.map_some]
  have hswap : w₁.step .linux files .swapFunctors =
      some { w₁ with functors := w.pendingFunctors_, pendingFunctors_ := [] } := by
    rw [World.step, if_pos hempty]
  refine ⟨_, .cons ⟨hnil, hall⟩ hwrite (.cons ⟨hnil, ?_⟩ hswap (.nil _)), ?_, rfl⟩
  · exact handleWrite_all h.ready hall hconn
  · rw [World.tasks, hnil, List.nil_append]

/-- One more round of the loop runs one more task of the chain. -/
theorem Past.more (h : Past files call w) :
    ∃ as w', Reaches (World.step .linux files) (Accepting files) w as w' ∧ Past files call w' ∧
      outputs (World.step .linux files) (ran call) w as ≠ [] := by
  have hkeeps : ∀ {w w' : World} {as}, Reaches (World.step .linux files) (Accepting files) w as w' →
      Past files call w → Past files call w' := fun hreaches ↦
    hreaches.keeps fun _ _ _ ha h hstep ↦ Past.step h ha hstep
  obtain ⟨as, w₁, hfinish, hnil, -⟩ := h.1.finish
  have h₁ := hkeeps hfinish h
  obtain ⟨w₂, hwrite, hfunctors, hpendingFunctors⟩ := h₁.1.writeEvent hnil
  have h₂ := hkeeps hwrite h₁
  obtain ⟨bs, w₃, hround, -, hout⟩ := h₂.1.finish
  have hpast : ∃ task ∈ w₂.functors, task.call = call := by
    obtain ⟨-, task, htask, -⟩ := h₂
    rw [pending, World.tasks, hpendingFunctors, List.append_nil, List.mem_filter] at htask
    exact ⟨task, htask.1, of_decide_eq_true htask.2⟩
  refine ⟨_, w₃, hfinish.append (hwrite.append hround), hkeeps hround h₂, ?_⟩
  rw [hfinish.outputs_append, hwrite.outputs_append]
  exact List.append_ne_nil_of_right_ne_nil _ (List.append_ne_nil_of_right_ne_nil _ (hout hpast))

theorem Past.not_ends (h : Past files call w) :
    ¬ Ends (World.step .linux files) (Accepting files) (ran call) w :=
  Foundation.Run.not_ends (fun _ (h : Past files call _) ↦ h.more) h

theorem Numbered.pending_nil (h : Numbered w) : pending w.sendFiles w = [] := by
  rw [pending, List.filter_eq_nil_iff]
  intro task htask
  simpa using (h.calls task htask).ne

theorem Numbered.functors_ne (h : Numbered w) : ¬ ∃ task ∈ w.functors, task.call = w.sendFiles := by
  rintro ⟨task, htask, hcall⟩
  exact (h.calls task (List.mem_append_left _ htask)).ne hcall

/-- Whichever thread makes the call, it leaves the whole range queued, or what is left of it once
the socket has taken all it can. -/
theorem Numbered.sendFileFrom (h : Numbered w) (hstate : w.conn.state_ = .kConnected)
    (inLoopThread : Bool) (task : Task) (hcall : task.call = w.sendFiles)
    (hall : TakesAll (task.bytes files).length result) :
    ∃ w', w.sendFileFrom files inLoopThread task.fileDescriptor task.offset task.count result =
        w' ∧ Due w.sendFiles w' ∧
      (pending w.sendFiles w' = [task] ∨ pending w.sendFiles w' = left task ∨
        pending w.sendFiles w' = left (task.rest .linux (task.bytes files).length)) := by
  have hconnected : w.conn.connected = true := decide_eq_true hstate
  let w₁ : World := { w with
    sendFiles := w.sendFiles + 1
    sent := w.sent ++ task.bytes files }
  have hdue : Due w.sendFiles w₁ :=
    ⟨h.ready, hstate, Nat.lt_succ_self _, fun hdue ↦ absurd hdue h.functors_ne⟩
  have hnil : pending w.sendFiles w₁ = [] := h.pending_nil
  have hqueued : ∀ new : List Task, (∀ other ∈ new, other.call = w.sendFiles) →
      Due w.sendFiles { w₁ with pendingFunctors_ := w₁.pendingFunctors_ ++ new } ∧
      pending w.sendFiles { w₁ with pendingFunctors_ := w₁.pendingFunctors_ ++ new } = new := by
    intro new hnew
    refine ⟨⟨h.ready, hstate, Nat.lt_succ_self _, fun hdue ↦ absurd hdue h.functors_ne⟩, ?_⟩
    have hall : new.filter (fun other ↦ other.call = w.sendFiles) = new :=
      List.filter_eq_self.2 fun other hother ↦ decide_eq_true (hnew other hother)
    rw [pending_queued w₁ w₁.conn, hnil, hall, List.nil_append]
  have hcalls : ∀ other ∈ left task, other.call = w.sendFiles := fun other hother ↦ by
    rw [mem_left hother, hcall]
  have htask : (⟨task.fileDescriptor, task.offset, task.count, w.sendFiles⟩ : Task) = task := by
    rw [← hcall]
  cases inLoopThread with
  | true =>
    have heq : w.sendFileFrom files true task.fileDescriptor task.offset task.count result =
        w₁.sendFileInLoop .linux files task result := by
      rw [World.sendFileFrom, if_pos rfl, World.sendFile, if_pos hconnected, htask]
      rfl
    cases hwriting : w.conn.channel_.isWriting with
    | false =>
      obtain ⟨hdue, hpending⟩ := hdue.own hcall hwriting hall
      rw [hnil, List.nil_append] at hpending
      exact ⟨_, heq, hdue, .inr (.inr hpending)⟩
    | true =>
      obtain ⟨hdue, hpending⟩ := hqueued (left task) hcalls
      have hwaits := sendFileInLoop_waits (w := w₁) hstate hwriting .linux files task result
      exact ⟨_, heq.trans hwaits, hdue, .inr (.inl hpending)⟩
  | false =>
    have heq : w.sendFileFrom files false task.fileDescriptor task.offset task.count result =
        w₁.queueInLoop task := by
      rw [World.sendFileFrom, if_neg Bool.false_ne_true, if_pos hconnected, htask]
      rfl
    obtain ⟨hdue, hpending⟩ := hqueued [task] fun other hother ↦ by
      rw [List.mem_singleton.1 hother, hcall]
    exact ⟨_, heq, hdue, .inl hpending⟩

/-- For one call of `sendFile` on a connection that stays connected and whose socket takes every
byte, only so many tasks are run, exactly if the file holds the whole range. Otherwise the
remainder is queued again and again. -/
theorem sendFile_ends_iff (files : ℕ → Bytes) (writeComplete highWater : Bool) (mark : ℕ)
    (before : List Action) {w : World}
    (hw : run (World.step .linux files) (start (established writeComplete highWater mark)) before =
      some w)
    (hconnected : w.conn.connected = true) (inLoopThread : Bool) (fileDescriptor offset count : ℕ)
    {result : WriteResult}
    (hall : TakesAll (range (files fileDescriptor) offset count).length result) :
    Ends (World.step .linux files) (Accepting files) (ran w.sendFiles)
        (w.sendFileFrom files inLoopThread fileDescriptor offset count result) ↔
      count ≤ (files fileDescriptor).length - offset := by
  have hnumbered : Numbered w :=
    run_inv (fun _ _ _ h hstep ↦ Numbered.step h hstep) (numbered_start ..) hw
  let task : Task := ⟨fileDescriptor, offset, count, w.sendFiles⟩
  obtain ⟨w', hw', hdue, hpending⟩ := hnumbered.sendFileFrom (of_decide_eq_true hconnected)
    inLoopThread task rfl hall
  change w.sendFileFrom files inLoopThread fileDescriptor offset count result = w' at hw'
  rw [hw']
  constructor
  · intro hends
    by_contra hpast
    have hpast : available files task < task.count := Nat.lt_of_not_le hpast
    have hleft : left task = [task] := if_pos (Nat.zero_lt_of_lt hpast)
    have hqueued : ∃ other ∈ pending w.sendFiles w', available files other < other.count := by
      obtain hpending | hpending | hpending := hpending
      · exact ⟨task, hpending ▸ List.mem_cons_self, hpast⟩
      · exact ⟨task, (hpending.trans hleft) ▸ List.mem_cons_self, hpast⟩
      · obtain ⟨rest, hrest, -, hpast⟩ := left_of_past hpast
        exact ⟨rest, (hpending.trans hrest) ▸ List.mem_cons_self, hpast⟩
    exact Past.not_ends ⟨hdue, hqueued⟩ hends
  · intro hfits
    have hfits : task.count ≤ available files task := hfits
    refine Fits.ends ⟨hdue, ?_⟩
    obtain hpending | hpending | hpending := hpending
    · rw [hpending, List.forall_mem_singleton]
      exact hfits
    · rw [hpending]
      exact fun other hother ↦ (mem_left hother) ▸ hfits
    · rw [hpending, left_of_fits hfits]
      exact fun _ hmem ↦ absurd hmem List.not_mem_nil

/-- The range waits behind a byte that is still buffered. -/
theorem range_in_file_ends :
    ∃ w, run (World.step .linux fileContents) (start (established false false 0))
        [.send (lit "xy") (.accepted 1)] = some w ∧
      Ends (World.step .linux fileContents) (Accepting fileContents) (ran w.sendFiles)
        (w.sendFileFrom fileContents true 0 1 3 (.accepted 9)) := by
  refine ⟨_, rfl, ?_⟩
  refine (sendFile_ends_iff fileContents false false 0 [.send (lit "xy") (.accepted 1)] ?_ ?_ true
    0 1 3 ?_).2 ?_
  · rfl
  · rfl
  · decide
  · decide

/-- Five bytes of a file of four. -/
theorem range_past_file_never_ends :
    let w := start (established false false 0)
    w.conn.connected = true ∧ (fileContents 0).length = 4 ∧
      ¬ Ends (World.step .linux fileContents) (Accepting fileContents) (ran w.sendFiles)
        (w.sendFileFrom fileContents true 0 0 5 (.accepted 5)) := by
  refine ⟨rfl, rfl, Past.not_ends ⟨⟨?_, rfl, ?_, ?_⟩, ⟨0, 4, 1, 0⟩, ?_, ?_⟩⟩
  · exact (delivering_established false false 0).ready.congr rfl rfl rfl
  · decide
  · rintro ⟨task, htask, -⟩
    cases htask
  · decide
  · decide

end CppAiService.FileSend

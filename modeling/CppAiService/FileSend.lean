import CppAiService.OutputStream
import Mathlib.Data.List.Flatten
import Mathlib.Data.List.Perm.Basic

namespace CppAiService.FileSend

open Foundation.Log Foundation.Run TcpConnection

/-- The two forms of `sendfile` the source is written for: only that of Linux moves the offset. -/
inductive Platform
  | linux
  | apple
  deriving DecidableEq

/-- A queued `sendFileInLoop`. The number of the call it goes back to is not part of the task. -/
structure Task where
  fileDescriptor : ℕ
  offset : ℕ
  count : ℕ
  call : ℕ
  deriving DecidableEq

def range (file : Bytes) (offset count : ℕ) : Bytes := (file.drop offset).take count

def Task.bytes (files : ℕ → Bytes) (task : Task) : Bytes :=
  range (files task.fileDescriptor) task.offset task.count

def Task.rest (platform : Platform) (task : Task) (bytesSent : ℕ) : Task :=
  { task with
    offset := match platform with
      | .linux => task.offset + bytesSent
      | .apple => task.offset
    count := task.count - bytesSent }

/-- One connection with the two lists of its loop's functors. `sendFiles` counts the accepted calls
of `sendFile`, and `sent` is what the accepted calls of `send` and `sendFile` have handed over. -/
structure World where
  conn : TcpConnection
  functors : List Task
  pendingFunctors_ : List Task
  sendFiles : ℕ
  sent : Bytes

inductive Action
  | send (buf : Bytes) (result : WriteResult)
  | sendFile (fileDescriptor offset count : ℕ) (result : WriteResult)
  | shutdown
  | handleWrite (result : WriteResult)
  | swapFunctors
  | runFunctor (result : WriteResult)

def Direct (c : TcpConnection) : Prop :=
  c.channel_.isWriting = false ∧ c.outputBuffer_.readableBytes = 0

instance : DecidablePred Direct := fun _ ↦ inferInstanceAs (Decidable (_ ∧ _))

namespace World

variable (platform : Platform) (files : ℕ → Bytes) (w : World)

def tasks : List Task := w.functors ++ w.pendingFunctors_

def queueInLoop (task : Task) : World :=
  { w with pendingFunctors_ := w.pendingFunctors_ ++ [task] }

/-- The end of `sendFileInLoop`: the remainder becomes a task. -/
def requeue (task : Task) : World := if 0 < task.count then w.queueInLoop task else w

def sendFileInLoop (task : Task) (result : WriteResult) : World :=
  if w.conn.state_ = .kDisconnecting then w
  else if Direct w.conn then
    match result with
    | .accepted n =>
      let bytes := range (files task.fileDescriptor) task.offset (min n task.count)
      let rest := task.rest platform bytes.length
      let conn := (w.conn.emit (.wrote bytes)).emitIf
        (rest.count = 0 ∧ w.conn.writeCompleteCallback_ = true) .writeComplete
      { w with conn := conn }.requeue rest
    | .wouldBlock | .failed => w.requeue task
    | .peerGone => w
  else w.requeue task

def sendFile (fileDescriptor offset count : ℕ) (result : WriteResult) : World :=
  if w.conn.connected then
    sendFileInLoop platform files
      { w with
        sendFiles := w.sendFiles + 1
        sent := w.sent ++ range (files fileDescriptor) offset count }
      ⟨fileDescriptor, offset, count, w.sendFiles⟩ result
  else w

/-- Write events are dispatched between two rounds of functors. -/
def step : Action → Option World
  | .send buf result =>
    (w.conn.send buf result).map fun conn ↦
      { w with conn := conn, sent := w.sent ++ if w.conn.connected then buf else [] }
  | .sendFile fileDescriptor offset count result =>
    some (w.sendFile platform files fileDescriptor offset count result)
  | .shutdown => some { w with conn := w.conn.shutdown }
  | .handleWrite result =>
    if w.functors.isEmpty then (w.conn.handleWrite result).map fun conn ↦ { w with conn := conn }
    else none
  | .swapFunctors =>
    if w.functors.isEmpty then
      some { w with functors := w.pendingFunctors_, pendingFunctors_ := [] }
    else none
  | .runFunctor result =>
    match w.functors with
    | [] => none
    | task :: functors =>
      some ({ w with functors := functors }.sendFileInLoop platform files task result)

end World

def start (conn : TcpConnection) : World := ⟨conn, [], [], 0, []⟩

/-- The loop keeps to its rounds, a range lies within its file, and no error ends the
connection. -/
def Lawful (files : ℕ → Bytes) (w : World) : Action → Prop
  | .send _ result => result ≠ .peerGone
  | .sendFile fileDescriptor offset count result =>
    offset + count ≤ (files fileDescriptor).length ∧ result ≠ .peerGone
  | .shutdown => True
  | .handleWrite _ | .swapFunctors => w.functors = []
  | .runFunctor result => w.functors ≠ [] ∧ result ≠ .peerGone

def bytesSent (c : TcpConnection) (count : ℕ) : WriteResult → ℕ
  | .accepted n => if Direct c then min n count else 0
  | .wouldBlock | .peerGone | .failed => 0

/-- Where `sendfile` leaves the offset alone, it must not stop in the middle. -/
def Resumes (platform : Platform) (c : TcpConnection) (count : ℕ) (result : WriteResult) : Prop :=
  platform = .apple → bytesSent c count result = 0 ∨ bytesSent c count result = count

/-- As long as the remainder of a range is queued, nothing else is handed to the connection and
put on the wire: no bytes of `send`, none of a later range, and no shutdown. -/
def InTurn (platform : Platform) (w : World) : Action → Prop
  | .send buf _ => w.conn.connected = true → w.tasks = [] ∨ buf = []
  | .sendFile _ _ count result => w.conn.connected = true →
    (w.tasks = [] ∨ bytesSent w.conn count result = 0) ∧ Resumes platform w.conn count result
  | .shutdown => w.conn.connected = true → w.tasks = []
  | .handleWrite _ | .swapFunctors => True
  | .runFunctor result => ∀ task ∈ w.functors.head?,
    (bytesSent w.conn task.count result = 0 ∨
      ∀ other ∈ w.functors.tail ++ w.pendingFunctors_, task.call < other.call) ∧
    Resumes platform w.conn task.count result

instance (files : ℕ → Bytes) (w : World) : DecidablePred (Lawful files w)
  | .send _ _ => inferInstanceAs (Decidable (_ ≠ _))
  | .sendFile .. => inferInstanceAs (Decidable (_ ∧ _))
  | .shutdown => inferInstanceAs (Decidable True)
  | .handleWrite _ | .swapFunctors => decidable_of_iff (w.functors.isEmpty = true) List.isEmpty_iff
  | .runFunctor result => decidable_of_iff (w.functors.isEmpty = false ∧ result ≠ .peerGone)
      (and_congr_left' List.isEmpty_eq_false_iff)

instance (platform : Platform) (c : TcpConnection) (count : ℕ) (result : WriteResult) :
    Decidable (Resumes platform c count result) :=
  inferInstanceAs (Decidable (_ → _))

instance (platform : Platform) (w : World) : DecidablePred (InTurn platform w)
  | .send _ _ => inferInstanceAs (Decidable (_ → _ = [] ∨ _))
  | .sendFile .. => inferInstanceAs (Decidable (_ → (_ ∨ _) ∧ _))
  | .shutdown => inferInstanceAs (Decidable (_ → _))
  | .handleWrite _ | .swapFunctors => inferInstanceAs (Decidable True)
  | .runFunctor _ => inferInstanceAs (Decidable (∀ task ∈ w.functors.head?, (_ ∨ _) ∧ _))

/-- What is on the wire is what the calls gave, in their order. The rest waits in the output
buffer, which is watched, and in the queued tasks; and a shutdown comes last. -/
structure Whole (files : ℕ → Bytes) (w : World) : Prop where
  inOrder : written w.conn.trace <+: w.sent
  held : ∃ rest : List Task, rest.Perm w.tasks ∧
    written w.conn.trace ++ w.conn.outputBuffer_.readable ++ rest.flatMap (Task.bytes files) =
      w.sent
  watched : w.conn.outputBuffer_.readable ≠ [] → w.conn.channel_.isWriting = true
  last : Every (Final w.sent) w.conn.trace

variable {platform : Platform} {files : ℕ → Bytes} {w : World} {task : Task} {rest : List Task}

def left (task : Task) : List Task := if 0 < task.count then [task] else []

def Within (files : ℕ → Bytes) (task : Task) : Prop :=
  task.offset + task.count ≤ (files task.fileDescriptor).length

theorem requeue_eq (w : World) (task : Task) :
    w.requeue task = { w with pendingFunctors_ := w.pendingFunctors_ ++ left task } := by
  rw [World.requeue, left]
  split
  · rfl
  · rw [List.append_nil]

theorem rest_zero (platform : Platform) (task : Task) : task.rest platform 0 = task := by
  cases platform with
  | linux => rfl
  | apple => rfl

theorem length_range (h : Within files task) {n : ℕ} (hn : n ≤ task.count) :
    (range (files task.fileDescriptor) task.offset n).length = n := by
  rw [Within] at h
  rw [range, List.length_take, List.length_drop]
  omega

theorem bytesSent_le (c : TcpConnection) (count : ℕ) (result : WriteResult) :
    bytesSent c count result ≤ count := by
  cases result with
  | accepted n =>
    rw [bytesSent]
    split
    · exact Nat.min_le_right ..
    · exact Nat.zero_le _
  | wouldBlock => exact Nat.zero_le _
  | peerGone => exact Nat.zero_le _
  | failed => exact Nat.zero_le _

variable (files) in
/-- What was sent and what is left make up the range. -/
theorem rest_bytes {n : ℕ} (hn : n ≤ task.count)
    (hresumes : platform = .apple → n = 0 ∨ n = task.count) :
    range (files task.fileDescriptor) task.offset n ++
      (left (task.rest platform n)).flatMap (Task.bytes files) = task.bytes files := by
  have hlinux : range (files task.fileDescriptor) task.offset n ++
      range (files task.fileDescriptor) (task.offset + n) (task.count - n) = task.bytes files := by
    rw [Task.bytes, range, range, range, ← List.drop_drop, ← List.take_add,
      Nat.add_sub_cancel' hn]
  rw [left]
  split
  · next hleft =>
    rw [List.flatMap_singleton]
    cases platform with
    | linux => exact hlinux
    | apple =>
      obtain rfl | rfl := hresumes rfl
      · rw [rest_zero, range, List.take_zero, List.nil_append]
      · exact absurd hleft (by simp [Task.rest])
  · next hleft =>
    have hall : n = task.count := by
      have hzero : task.count - n = 0 := Nat.eq_zero_of_not_pos hleft
      omega
    rw [List.flatMap_nil, List.append_nil, hall, Task.bytes]

variable (platform) in
theorem left_within {n : ℕ} (h : Within files task) (hn : n ≤ task.count) :
    ∀ other ∈ left (task.rest platform n),
      Within files other ∧ 0 < other.count ∧ other.call = task.call := by
  intro other hother
  rw [left] at hother
  split at hother
  · next hpos =>
    obtain rfl := List.mem_singleton.1 hother
    refine ⟨?_, hpos, rfl⟩
    rw [Within] at h ⊢
    cases platform with
    | linux =>
      change task.offset + n + (task.count - n) ≤ (files task.fileDescriptor).length
      omega
    | apple =>
      change task.offset + (task.count - n) ≤ (files task.fileDescriptor).length
      omega
  · cases hother

variable (platform) in
/-- A call that sends nothing queues its task again and leaves the connection. -/
theorem requeue_spec {front : Bytes} (h : Delivering w.conn front) (task : Task) :
    ∃ conn, w.requeue task = { w with
        conn := conn
        pendingFunctors_ := w.pendingFunctors_ ++ left (task.rest platform 0) } ∧
      conn.state_ = w.conn.state_ ∧
      Delivering conn (front ++ range (files task.fileDescriptor) task.offset 0) := by
  rw [rest_zero, range, List.take_zero, List.append_nil]
  exact ⟨w.conn, requeue_eq w task, rfl, h⟩

variable (platform) in
theorem sendFileInLoop_spec {front : Bytes} (hstate : w.conn.state_ = .kConnected)
    (h : Delivering w.conn front) (hwithin : Within files task) {result : WriteResult}
    (hresult : result ≠ .peerGone) :
    ∃ conn, w.sendFileInLoop platform files task result = { w with
        conn := conn
        pendingFunctors_ := w.pendingFunctors_ ++
          left (task.rest platform (bytesSent w.conn task.count result)) } ∧
      conn.state_ = w.conn.state_ ∧
      Delivering conn (front ++ range (files task.fileDescriptor) task.offset
        (bytesSent w.conn task.count result)) := by
  have hopen : ¬ w.conn.state_ = .kDisconnecting := by rw [hstate]; exact nofun
  unfold World.sendFileInLoop
  rw [if_neg hopen]
  split
  · next hdirect =>
    cases result with
    | accepted n =>
      have hn : bytesSent w.conn task.count (.accepted n) = min n task.count := if_pos hdirect
      rw [hn]
      dsimp only
      rw [length_range hwithin (Nat.min_le_right ..), requeue_eq]
      have hempty := (Buffer.readableBytes_eq_zero_iff _).1 hdirect.2
      have hwrote := Flows.emit h.ready (e := .wrote
        (range (files task.fileDescriptor) task.offset (min n task.count))) (by simp) (.inl hempty)
      have hflows := hwrote.trans (Flows.emitIf hwrote.ready
        ((task.rest platform (min n task.count)).count = 0 ∧
          w.conn.writeCompleteCallback_ = true) (e := .writeComplete) (by simp) rfl)
      rw [List.append_nil] at hflows
      exact ⟨_, rfl, hflows.state_, h.flows hflows (.inr (h.open_of_connected hstate))⟩
    | wouldBlock => exact requeue_spec platform h task
    | peerGone => exact absurd rfl hresult
    | failed => exact requeue_spec platform h task
  · next hdirect =>
    have hzero : bytesSent w.conn task.count result = 0 := by
      cases result with
      | accepted n => exact if_neg hdirect
      | wouldBlock => rfl
      | peerGone => rfl
      | failed => rfl
    rw [hzero]
    exact requeue_spec platform h task

/-- The tasks in the order of their calls are what the connection still has to be handed. Only an
open connection has any. -/
structure Queued (files : ℕ → Bytes) (w : World) (tasks : List Task) : Prop where
  task : ∀ task ∈ tasks, Within files task ∧ 0 < task.count ∧ task.call < w.sendFiles
  connected : tasks = [] ∨ w.conn.state_ = .kConnected
  stream : ∃ front, ∃ rest : List Task, Delivering w.conn front ∧ rest.Perm tasks ∧
    rest.Pairwise (fun task other ↦ task.call < other.call) ∧
    w.sent = front ++ rest.flatMap (Task.bytes files)

theorem Queued.whole (h : Queued files w w.tasks) : Whole files w := by
  obtain ⟨front, rest, hdelivering, hperm, -, hsent⟩ := h.stream
  have hstream : written w.conn.trace ++ w.conn.outputBuffer_.readable ++
      rest.flatMap (Task.bytes files) = w.sent := by
    rw [hdelivering.stream, hsent]
  refine ⟨?_, ⟨rest, hperm, hstream⟩, hdelivering.ready.writing_iff.2, ?_⟩
  · exact ⟨_, (List.append_assoc ..).symm.trans hstream⟩
  · obtain hnil | hstate := h.connected
    · rw [hnil] at hperm
      rw [hsent, List.perm_nil.1 hperm, List.flatMap_nil, List.append_nil]
      exact hdelivering.final
    · apply every_of_forall
      intro e he earlier
      exact final_of_ne fun heq ↦ hdelivering.open_of_connected hstate (heq ▸ he)

theorem Queued.send (h : Queued files w w.tasks) {buf : Bytes} {result : WriteResult}
    (hresult : result ≠ .peerGone) (hturn : InTurn platform w (.send buf result)) :
    ∃ w', w.step platform files (.send buf result) = some w' ∧ Queued files w' w'.tasks := by
  obtain ⟨front, rest, hdelivering, hperm, hsorted, hsent⟩ := h.stream
  cases hc : w.conn.connected with
  | true =>
    obtain ⟨d, hd, hflows, hdelivering'⟩ := hdelivering.send hc buf hresult
    refine ⟨{ w with conn := d, sent := w.sent ++ buf }, ?_, h.task,
      h.connected.imp_right hflows.state_.trans, front ++ buf, rest, hdelivering', hperm, hsorted,
      ?_⟩
    · simp only [World.step, hd, hc, Option.map_some, if_true]
    · change w.sent ++ buf = front ++ buf ++ rest.flatMap (Task.bytes files)
      obtain htasks | rfl := hturn hc
      · rw [htasks] at hperm
        rw [hsent, List.perm_nil.1 hperm, List.flatMap_nil, List.append_nil, List.append_nil]
      · rw [hsent, List.append_nil, List.append_nil]
  | false =>
    refine ⟨w, ?_, h⟩
    simp only [World.step, TcpConnection.send, hc, Bool.false_eq_true, if_false, Option.map_some,
      List.append_nil]

theorem Queued.shutdown (h : Queued files w w.tasks) (hturn : InTurn platform w .shutdown) :
    Queued files { w with conn := w.conn.shutdown } w.tasks := by
  obtain ⟨front, rest, hdelivering, hrest⟩ := h.stream
  have hnil : w.tasks = [] := by
    obtain hnil | hstate := h.connected
    · exact hnil
    · exact hturn (decide_eq_true hstate)
  exact ⟨h.task, .inl hnil, front, rest, hdelivering.shutdown, hrest⟩

theorem Queued.handleWrite (h : Queued files w w.tasks) (result : WriteResult) :
    ∃ conn, w.conn.handleWrite result = some conn ∧
      Queued files { w with conn := conn } w.tasks := by
  obtain ⟨front, rest, hdelivering, hrest⟩ := h.stream
  obtain ⟨d, hd, hdelivering', hconnected, -⟩ := hdelivering.handleWrite result
  refine ⟨d, hd, h.task, h.connected.imp_right fun hstate ↦ ?_, front, rest, hdelivering', hrest⟩
  exact of_decide_eq_true (hconnected.trans (decide_eq_true hstate))

theorem oldest_cons {tasks : List Task} (hperm : rest.Perm (task :: tasks))
    (hsorted : rest.Pairwise fun task other ↦ task.call < other.call)
    (holdest : ∀ other ∈ tasks, task.call < other.call) :
    ∃ others, rest = task :: others ∧ others.Perm tasks := by
  cases rest with
  | nil => cases List.nil_perm.1 hperm
  | cons first others =>
    have hfirst : first = task := by
      by_contra hne
      have hmem := (List.mem_cons.1 (hperm.mem_iff.1 List.mem_cons_self)).resolve_left hne
      have hlater := (List.mem_cons.1 (hperm.mem_iff.2 List.mem_cons_self)).resolve_left
        (Ne.symm hne)
      exact absurd ((List.pairwise_cons.1 hsorted).1 task hlater) (holdest first hmem).asymm
    subst hfirst
    exact ⟨others, rfl, hperm.cons_inv⟩

theorem left_pairwise {R : Task → Task → Prop} (task : Task) : (left task).Pairwise R := by
  rw [left]
  split
  · exact List.pairwise_singleton ..
  · exact List.Pairwise.nil

/-- Bytes of a range go behind those before it: its task is the oldest one, or none are sent. -/
theorem Queued.sendFileInLoop (h : Queued files w (task :: w.tasks))
    {result : WriteResult} (hresult : result ≠ .peerGone)
    (hturn : bytesSent w.conn task.count result = 0 ∨ ∀ other ∈ w.tasks, task.call < other.call)
    (hresumes : Resumes platform w.conn task.count result) :
    Queued files (w.sendFileInLoop platform files task result)
      (w.sendFileInLoop platform files task result).tasks := by
  obtain ⟨front, rest, hdelivering, hperm, hsorted, hsent⟩ := h.stream
  have hstate := h.connected.resolve_left (List.cons_ne_nil _ _)
  obtain ⟨⟨hwithin, hpos, hcall⟩, htasks⟩ := List.forall_mem_cons.1 h.task
  obtain ⟨conn, heq, hstate', hdelivering'⟩ :=
    sendFileInLoop_spec platform hstate hdelivering hwithin hresult
  rw [heq]
  have hn := bytesSent_le w.conn task.count result
  have hbytes := rest_bytes files hn hresumes
  have hleft := left_within platform hwithin hn
  generalize bytesSent w.conn task.count result = n at hturn hn hbytes hleft hdelivering'
  have hqueue : World.tasks { w with
      conn := conn
      pendingFunctors_ := w.pendingFunctors_ ++ left (task.rest platform n) } =
      w.tasks ++ left (task.rest platform n) := (List.append_assoc ..).symm
  rw [hqueue]
  refine ⟨?_, .inr (hstate'.trans hstate), ?_⟩
  · intro other hother
    obtain hother | hother := List.mem_append.1 hother
    · exact htasks other hother
    · obtain ⟨hwithin', hpos', hcall'⟩ := hleft other hother
      exact ⟨hwithin', hpos', hcall'.symm ▸ hcall⟩
  · obtain rfl | holdest := hturn
    · have hleft : left task = [task] := if_pos hpos
      rw [rest_zero, hleft]
      refine ⟨_, rest, hdelivering', hperm.trans (List.perm_append_singleton ..).symm, hsorted, ?_⟩
      rw [range, List.take_zero, List.append_nil]
      exact hsent
    · obtain ⟨others, rfl, hothers⟩ := oldest_cons hperm hsorted holdest
      obtain ⟨hfirst, hsorted⟩ := List.pairwise_cons.1 hsorted
      refine ⟨_, left (task.rest platform n) ++ others, hdelivering',
        (hothers.append_left _).trans List.perm_append_comm, ?_, ?_⟩
      · refine List.pairwise_append.2 ⟨left_pairwise _, hsorted, fun other hother later hlater ↦ ?_⟩
        rw [(hleft other hother).2.2]
        exact hfirst later hlater
      · change w.sent = _
        rw [hsent, List.flatMap_cons, ← hbytes, List.flatMap_append]
        simp only [List.append_assoc]

theorem Queued.sendFileInLoop_nothing (h : Queued files w w.tasks)
    (hstate : w.conn.state_ = .kConnected) (hwithin : Within files task) (hzero : task.count = 0)
    {result : WriteResult} (hresult : result ≠ .peerGone) :
    Queued files (w.sendFileInLoop platform files task result)
      (w.sendFileInLoop platform files task result).tasks := by
  obtain ⟨front, rest, hdelivering, hrest⟩ := h.stream
  obtain ⟨conn, heq, hstate', hdelivering'⟩ :=
    sendFileInLoop_spec platform hstate hdelivering hwithin hresult
  have hn : bytesSent w.conn task.count result = 0 :=
    Nat.eq_zero_of_le_zero (hzero ▸ bytesSent_le ..)
  have hleft : left task = [] := if_neg (Nat.not_lt.2 hzero.le)
  rw [hn, rest_zero, hleft, List.append_nil] at heq
  rw [hn, range, List.take_zero, List.append_nil] at hdelivering'
  rw [heq]
  exact ⟨h.task, .inr (hstate'.trans hstate), front, rest, hdelivering', hrest⟩

theorem Queued.sendFile (h : Queued files w w.tasks) {fileDescriptor offset count : ℕ}
    {result : WriteResult} (hlawful : Lawful files w (.sendFile fileDescriptor offset count result))
    (hturn : InTurn platform w (.sendFile fileDescriptor offset count result)) :
    Queued files (w.sendFile platform files fileDescriptor offset count result)
      (w.sendFile platform files fileDescriptor offset count result).tasks := by
  rw [World.sendFile]
  split
  · next hc =>
    obtain ⟨front, rest, hdelivering, hperm, hsorted, hsent⟩ := h.stream
    obtain ⟨hwithin, hresult⟩ := hlawful
    obtain ⟨hturn, hresumes⟩ := hturn hc
    have hstate : w.conn.state_ = .kConnected := of_decide_eq_true hc
    let task : Task := ⟨fileDescriptor, offset, count, w.sendFiles⟩
    have hwithin : Within files task := hwithin
    let w' : World := { w with
      sendFiles := w.sendFiles + 1
      sent := w.sent ++ task.bytes files }
    have htasks : ∀ other ∈ w.tasks,
        Within files other ∧ 0 < other.count ∧ other.call < w'.sendFiles := by
      intro other hother
      obtain ⟨hwithin, hpos, hcall⟩ := h.task other hother
      exact ⟨hwithin, hpos, hcall.trans (Nat.lt_succ_self _)⟩
    obtain hzero | hpos := Nat.eq_zero_or_pos count
    · have hsame : w'.sent = front ++ rest.flatMap (Task.bytes files) := by
        change w.sent ++ range (files fileDescriptor) offset count = _
        rw [hsent, hzero, range, List.take_zero, List.append_nil]
      have hqueued : Queued files w' w'.tasks :=
        ⟨htasks, .inr hstate, front, rest, hdelivering, hperm, hsorted, hsame⟩
      exact hqueued.sendFileInLoop_nothing hstate hwithin hzero hresult
    · have hinHand : Queued files w' (task :: w'.tasks) := by
        refine ⟨List.forall_mem_cons.2 ⟨⟨hwithin, hpos, Nat.lt_succ_self _⟩, htasks⟩, .inr hstate,
          front, rest ++ [task], hdelivering, ?_, ?_, ?_⟩
        · exact (List.perm_append_singleton ..).trans (hperm.cons task)
        · refine List.pairwise_append.2 ⟨hsorted, List.pairwise_singleton .., ?_⟩
          intro other hother last hlast
          exact List.mem_singleton.1 hlast ▸ (h.task other (hperm.mem_iff.1 hother)).2.2
        · change w.sent ++ task.bytes files = _
          rw [hsent, List.flatMap_append, List.flatMap_singleton, List.append_assoc]
      refine hinHand.sendFileInLoop hresult ?_ hresumes
      refine hturn.symm.imp_right fun hnone other hother ↦ ?_
      exact absurd (hnone ▸ hother) List.not_mem_nil
  · exact h

theorem Queued.step (h : Queued files w w.tasks) {a : Action} (hlawful : Lawful files w a)
    (hturn : InTurn platform w a) :
    ∃ w', w.step platform files a = some w' ∧ Queued files w' w'.tasks := by
  cases a with
  | send buf result => exact h.send hlawful hturn
  | sendFile fileDescriptor offset count result => exact ⟨_, rfl, h.sendFile hlawful hturn⟩
  | shutdown => exact ⟨_, rfl, h.shutdown hturn⟩
  | handleWrite result =>
    obtain ⟨conn, hconn, h'⟩ := h.handleWrite result
    refine ⟨{ w with conn := conn }, ?_, h'⟩
    rw [World.step, if_pos (List.isEmpty_iff.2 hlawful), hconn, Option.map_some]
  | swapFunctors =>
    refine ⟨{ w with functors := w.pendingFunctors_, pendingFunctors_ := [] }, ?_, ?_⟩
    · rw [World.step, if_pos (List.isEmpty_iff.2 hlawful)]
    · have hsame : w.pendingFunctors_ ++ [] = w.tasks := by
        rw [World.tasks, show w.functors = [] from hlawful, List.append_nil, List.nil_append]
      change Queued files _ (w.pendingFunctors_ ++ [])
      rw [hsame]
      exact ⟨h.task, h.connected, h.stream⟩
  | runFunctor result =>
    obtain ⟨hne, hresult⟩ := hlawful
    obtain ⟨task, functors, hfunctors⟩ := List.exists_cons_of_ne_nil hne
    simp only [InTurn, hfunctors, List.head?_cons, List.tail_cons, Option.mem_some_iff,
      forall_eq'] at hturn
    have hinHand : Queued files { w with functors := functors }
        (task :: World.tasks { w with functors := functors }) := by
      have hsame : w.tasks = task :: (functors ++ w.pendingFunctors_) := by
        rw [World.tasks, hfunctors, List.cons_append]
      rw [hsame] at h
      exact ⟨h.task, h.connected, h.stream⟩
    refine ⟨_, ?_, hinHand.sendFileInLoop hresult hturn.1 hturn.2⟩
    simp only [World.step, hfunctors]

theorem queued_start (files : ℕ → Bytes) (writeComplete highWater : Bool) (mark : ℕ) :
    Queued files (start (established writeComplete highWater mark)) [] where
  task := fun _ h ↦ absurd h List.not_mem_nil
  connected := .inl rfl
  stream := ⟨[], [], delivering_established .., List.Perm.refl _, List.Pairwise.nil, rfl⟩

/-- If every step of a run is taken in its turn, the ranges of files reach the wire whole and in
place, in every state of the run. -/
theorem ranges_sent_whole (platform : Platform) (files : ℕ → Bytes) (writeComplete highWater : Bool)
    (mark : ℕ) (actions : List Action)
    (h : Along (World.step platform files) (fun w a ↦ Lawful files w a ∧ InTurn platform w a)
      (start (established writeComplete highWater mark)) actions) :
    ∀ before after, actions = before ++ after →
      ∃ w, run (World.step platform files) (start (established writeComplete highWater mark))
        before = some w ∧ Whole files w := by
  rintro before after rfl
  obtain ⟨w, hw, hqueued⟩ :=
    possible (fun w a ha h ↦ Queued.step h ha.1 ha.2) (queued_start ..) h.of_append
  exact ⟨w, hw, hqueued.whole⟩

def fileContents (_ : ℕ) : Bytes := lit "abcd"

/-- The range waits for the byte in front of it, and goes out in two pieces. -/
theorem range_sent_in_pieces :
    let s := start (established false false 0)
    ∀ before after, [.send (lit "xy") (.accepted 1), .sendFile 0 1 3 .wouldBlock, .swapFunctors,
        .runFunctor (.accepted 9), .handleWrite (.accepted 1), .swapFunctors,
        .runFunctor (.accepted 2), .swapFunctors, .runFunctor (.accepted 9), .shutdown] =
          before ++ after →
      ∃ w, run (World.step .linux fileContents) s before = some w ∧ Whole fileContents w :=
  ranges_sent_whole .linux fileContents false false 0 _ (by decide +kernel)

/-- A later message overtakes the remainder of the range; a shutdown lets it be dropped. -/
theorem range_not_whole :
    (∃ w, run (World.step .linux fileContents) (start (established false false 0))
        [.sendFile 0 0 4 (.accepted 2), .send (lit "x") (.accepted 1), .swapFunctors,
          .runFunctor (.accepted 2)] = some w ∧
      w.sent = lit "abcdx" ∧ written w.conn.trace = lit "abxcd" ∧ ¬ Whole fileContents w) ∧
    ∃ w, run (World.step .linux fileContents) (start (established false false 0))
        [.sendFile 0 0 4 (.accepted 2), .shutdown, .swapFunctors, .runFunctor (.accepted 2)] =
          some w ∧
      written w.conn.trace = lit "ab" ∧ .shutdownWrite ∈ w.conn.trace ∧ w.tasks = [] ∧
      ¬ Whole fileContents w := by
  refine ⟨⟨_, rfl, by decide +kernel, by decide +kernel, fun h ↦ ?_⟩,
    ⟨_, rfl, by decide +kernel, by decide +kernel, by decide +kernel, fun h ↦ ?_⟩⟩
  · exact absurd h.inOrder (by decide +kernel)
  · obtain ⟨rest, hperm, hheld⟩ := h.held
    obtain rfl := List.perm_nil.1 hperm
    exact absurd hheld (by decide +kernel)

end CppAiService.FileSend

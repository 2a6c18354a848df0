import CppAiService.CrossThread
import CppAiService.Foundation.Log

namespace CppAiService

open Foundation.Log

def Effect.harmless : Effect → Bool
  | .wrote bytes => bytes.isEmpty
  | .epoll operation => operation = .del
  | .closing | .connectionCallback _ | .closeCallback => false
  | .shutdownWrite | .writeComplete | .highWaterMark _ => true

def closeEffects : List Effect :=
  [.closing, .epoll .del, .connectionCallback false, .closeCallback]

def sinceClosing (trace : List Effect) : List Effect := since (· = .closing) trace

/-- From its first close on, a connection writes nothing, is not watched again, and runs the
callbacks of that close only. -/
def StaysClosed (trace : List Effect) : Prop :=
  sinceClosing trace = [] ∨
    ∃ later, sinceClosing trace = closeEffects ++ later ∧ ∀ e ∈ later, e.harmless = true

theorem sinceClosing_append {trace es : List Effect} (h : sinceClosing trace = [])
    (hes : .closing ∉ es) : sinceClosing (trace ++ es) = [] := by
  rw [sinceClosing, since_append_of_eq_nil h, since_eq_nil_iff]
  intro e he
  exact decide_eq_false fun heq ↦ hes (heq ▸ he)

theorem not_staysClosed {trace es : List Effect} (h : sinceClosing trace = closeEffects ++ es)
    {e : Effect} (he : e ∈ es) (hharm : e.harmless = false) : ¬ StaysClosed trace := by
  intro hor
  obtain hnil | ⟨later, hlater, hharmless⟩ := hor
  · cases h.symm.trans hnil
  · have hes : es = later := List.append_cancel_left (h.symm.trans hlater)
    cases hharm.symm.trans (hharmless e (hes ▸ he))

namespace TcpConnection

variable {c d : TcpConnection} {events : Events} {data : Bytes}

structure Open (c : TcpConnection) : Prop where
  consistent : c.registration.Consistent
  notClosing : sinceClosing c.trace = []

theorem Open.emit (h : c.Open) {e : Effect} (he : .closing ≠ e) : (c.emit e).Open :=
  ⟨h.consistent, sinceClosing_append h.notClosing fun hmem ↦ he (List.mem_singleton.1 hmem)⟩

theorem Open.emitIf (h : c.Open) (p : Prop) [Decidable p] {e : Effect} (he : .closing ≠ e) :
    (c.emitIf p e).Open := by
  obtain heq | heq := c.emitIf_eq p e
  · exact heq ▸ h.emit he
  · exact heq.symm ▸ h

theorem Open.registered (h : c.Open) {r : EPollPoller.Registration} (hr : r.Consistent) :
    (c.registered r).Open := by
  refine ⟨hr, sinceClosing_append h.notClosing fun hmem ↦ ?_⟩
  simp at hmem

theorem Open.setEvents (h : c.Open) (events : Events) :
    ∃ d, c.setEvents events = some d ∧ d.Open := by
  have hconsistent : EPollPoller.Registration.Consistent
      { c.registration with channel := { c.channel_ with events_ := events } } := h.consistent
  obtain ⟨r, operation, hr, hconsistent, -⟩ := EPollPoller.updateChannel_consistent hconsistent
  exact ⟨c.registered r, by rw [TcpConnection.setEvents, hr, Option.map_some],
    h.registered hconsistent⟩

theorem Open.removeChannel (h : c.Open) : ∃ d, c.removeChannel = some d ∧ d.Open := by
  obtain ⟨r, hr, hconsistent, -⟩ := EPollPoller.removeChannel_consistent h.consistent
  exact ⟨c.registered r, by rw [TcpConnection.removeChannel, hr, Option.map_some],
    h.registered hconsistent⟩

theorem Open.keepUnsent (h : c.Open) (rest : Bytes) :
    ∃ d, c.keepUnsent rest = some d ∧ d.Open := by
  have hmark : (c.checkHighWaterMark rest.length).Open := h.emitIf _ (by simp)
  have happended : Open { c.checkHighWaterMark rest.length with
      outputBuffer_ := c.outputBuffer_.append rest } := ⟨hmark.consistent, hmark.notClosing⟩
  simp only [TcpConnection.keepUnsent]
  split
  · exact ⟨_, rfl, happended⟩
  · exact happended.setEvents _

theorem Open.writeDirectly (h : c.Open) (data : Bytes) (result : WriteResult) :
    (c.writeDirectly data result).1.Open := by
  cases result with
  | accepted n =>
    have hwrote := h.emit (e := .wrote (data.take (min n data.length))) (by simp)
    exact hwrote.emitIf _ (by simp)
  | wouldBlock => exact h
  | peerGone => exact h
  | failed => exact h

theorem Open.sendInLoop (h : c.Open) (data : Bytes) (result : WriteResult) :
    ∃ d, c.sendInLoop data result = some d ∧ d.Open := by
  rw [TcpConnection.sendInLoop]
  split
  next d nwrote faultError hwrite =>
  have hd : d.Open := by
    split at hwrite
    · have hopen := h.writeDirectly data result
      rwa [hwrite] at hopen
    · cases hwrite
      exact h
  split
  · exact hd.keepUnsent _
  · exact ⟨d, rfl, hd⟩

theorem Open.send (h : c.Open) (buf : Bytes) (result : WriteResult) :
    ∃ d, c.send buf result = some d ∧ d.Open := by
  rw [TcpConnection.send]
  split
  · exact h.sendInLoop buf result
  · exact ⟨c, rfl, h⟩

theorem Open.shutdownInLoop (h : c.Open) : c.shutdownInLoop.Open := by
  rw [TcpConnection.shutdownInLoop]
  split
  · exact h
  · exact h.emit (by simp)

theorem Open.setState (h : c.Open) (state : StateE) : (c.setState state).Open :=
  ⟨h.consistent, h.notClosing⟩

theorem Open.shutdown (h : c.Open) : c.shutdown.Open := by
  rw [TcpConnection.shutdown]
  split
  · exact (h.setState _).shutdownInLoop
  · exact h

theorem Open.drained (h : c.Open) : ∃ d, c.drained = some d ∧ d.Open := by
  obtain ⟨d, hd, hopen⟩ := h.setEvents { c.channel_.events_ with write := false }
  have hcomplete := hopen.emitIf (d.writeCompleteCallback_ = true) (e := .writeComplete) (by simp)
  simp only [TcpConnection.drained, disableWriting, hd, Option.bind_eq_bind, Option.bind_some]
  refine ⟨_, rfl, ?_⟩
  split
  · exact hcomplete.shutdownInLoop
  · exact hcomplete

theorem Open.handleWrite (h : c.Open) (result : WriteResult) :
    ∃ d, c.handleWrite result = some d ∧ d.Open := by
  unfold TcpConnection.handleWrite
  split
  · cases result with
    | accepted n =>
      dsimp only
      generalize min n c.outputBuffer_.readableBytes = n
      have hwrote : (c.emit (.wrote (c.outputBuffer_.peek n))).Open := h.emit (by simp)
      have hretrieved : (c.retrieveWritten n).Open := ⟨hwrote.consistent, hwrote.notClosing⟩
      split_ifs
      · exact ⟨c, rfl, h⟩
      · exact hretrieved.drained
      · exact ⟨_, rfl, hretrieved⟩
    | wouldBlock => exact ⟨c, rfl, h⟩
    | peerGone => exact ⟨c, rfl, h⟩
    | failed => exact ⟨c, rfl, h⟩
  · exact ⟨c, rfl, h⟩

theorem Open.connectDestroyed (h : c.Open) : ∃ d, c.connectDestroyed = some d ∧ d.Open := by
  rw [TcpConnection.connectDestroyed]
  split
  · obtain ⟨d, hd, hopen⟩ := (h.setState .kDisconnected).setEvents kNoneEvent
    have hcallback : (d.emit (.connectionCallback d.connected)).Open := hopen.emit (by simp)
    simp only [disableAll, hd, Option.bind_eq_bind, Option.bind_some]
    exact hcallback.removeChannel
  · exact h.removeChannel

structure Settled (c : TcpConnection) : Prop where
  index_ne : c.channel_.index_ ≠ .kAdded
  interest : c.interest = none
  notWriting : c.channel_.isWriting = false
  notConnected : c.connected = false
  closed : ∃ later, sinceClosing c.trace = closeEffects ++ later ∧ ∀ e ∈ later, e.harmless = true

theorem sinceClosing_append_of_closed {trace es later : List Effect}
    (h : sinceClosing trace = closeEffects ++ later) :
    sinceClosing (trace ++ es) = closeEffects ++ (later ++ es) := by
  have hne : sinceClosing trace ≠ [] := by
    rw [h]
    exact List.cons_ne_nil _ _
  rw [sinceClosing, since_append hne, ← List.append_assoc]
  exact congrArg (· ++ es) h

theorem Settled.extend (h : c.Settled) (es : List Effect) (hes : ∀ e ∈ es, e.harmless = true)
    (hchannel : d.channel_.index_ ≠ .kAdded) (hinterest : d.interest = none)
    (hwriting : d.channel_.isWriting = false) (hconnected : d.connected = false)
    (htrace : d.trace = c.trace ++ es) : d.Settled := by
  obtain ⟨later, hclosed, hlater⟩ := h.closed
  refine ⟨hchannel, hinterest, hwriting, hconnected, later ++ es, ?_, fun e he ↦ ?_⟩
  · rw [htrace, sinceClosing_append_of_closed hclosed]
  · exact (List.mem_append.1 he).elim (hlater e) (hes e)

theorem Settled.emit (h : c.Settled) {e : Effect} (he : e.harmless = true) :
    (c.emit e).Settled := by
  refine h.extend [e] ?_ h.index_ne h.interest h.notWriting h.notConnected rfl
  intro e' he'
  exact List.mem_singleton.1 he' ▸ he

theorem Settled.emitIf (h : c.Settled) (p : Prop) [Decidable p] {e : Effect}
    (he : e.harmless = true) : (c.emitIf p e).Settled := by
  obtain heq | heq := c.emitIf_eq p e
  · exact heq ▸ h.emit he
  · exact heq.symm ▸ h

theorem Settled.sinceClosing_ne_nil (h : c.Settled) : sinceClosing c.trace ≠ [] := by
  obtain ⟨later, hclosed, -⟩ := h.closed
  rw [hclosed]
  exact List.cons_ne_nil _ _

theorem Settled.staysClosed (h : c.Settled) : StaysClosed c.trace := .inr h.closed

theorem Settled.not_staysClosed (h : c.Settled) {es : List Effect} {e : Effect} (he : e ∈ es)
    (hharm : e.harmless = false) (htrace : d.trace = c.trace ++ es) : ¬ StaysClosed d.trace := by
  obtain ⟨later, hclosed, -⟩ := h.closed
  refine CppAiService.not_staysClosed ?_ (List.mem_append_right later he) hharm
  rw [htrace, sinceClosing_append_of_closed hclosed]

theorem disableAll_of_added (h : c.registration.Consistent)
    (hadded : c.channel_.index_ = .kAdded) :
    c.disableAll = some { c with
      channel_ := ⟨kNoneEvent, .kDeleted⟩
      interest := none
      trace := c.trace ++ [.epoll .del] } := by
  have hconsistent : EPollPoller.Registration.Consistent
      { c.registration with channel := { c.channel_ with events_ := kNoneEvent } } := h
  have hnone : Channel.isNoneEvent { c.channel_ with events_ := kNoneEvent } = true :=
    decide_eq_true rfl
  rw [disableAll, TcpConnection.setEvents, EPollPoller.updateChannel_del hconsistent hadded hnone]
  rfl

def closed (c : TcpConnection) : TcpConnection :=
  { c with
    state_ := .kDisconnected
    channel_ := ⟨kNoneEvent, .kDeleted⟩
    interest := none
    trace := c.trace ++ closeEffects }

theorem handleClose_eq (h : c.registration.Consistent) (hadded : c.channel_.index_ = .kAdded) :
    c.handleClose = some c.closed := by
  have hconsistent : ((c.emit .closing).setState .kDisconnected).registration.Consistent := h
  simp only [TcpConnection.handleClose, disableAll_of_added hconsistent hadded,
    Option.bind_eq_bind, Option.bind_some]
  simp only [TcpConnection.emit, setState, connected, closed, closeEffects, List.append_assoc,
    List.cons_append, List.nil_append, reduceCtorEq, decide_false]
  rfl

theorem Open.closed_settled (h : c.Open) : c.closed.Settled := by
  refine ⟨by simp [closed], rfl, rfl, rfl, [], ?_, by simp⟩
  change sinceClosing (c.trace ++ closeEffects) = _
  rw [sinceClosing, since_append_of_eq_nil h.notClosing, List.append_nil]
  rfl

theorem Settled.shutdownInLoop (h : c.Settled) : c.shutdownInLoop.Settled := by
  rw [TcpConnection.shutdownInLoop]
  split
  · exact h
  · exact h.emit rfl

theorem Settled.handleWrite (h : c.Settled) (result : WriteResult) :
    c.handleWrite result = some c := by
  unfold TcpConnection.handleWrite
  exact if_neg (by rw [h.notWriting]; exact Bool.false_ne_true)

theorem Settled.connectDestroyed (h : c.Settled) :
    ∃ d, c.connectDestroyed = some d ∧ d.Settled := by
  have hconsistent : c.registration.Consistent :=
    iff_of_false (by simp [registration, h.interest]) h.index_ne
  obtain ⟨r, hr, -, hchannel, hinterest, hcalls⟩ :=
    EPollPoller.removeChannel_consistent hconsistent
  have hnil : r.calls = [] := hcalls.trans (by simp [registration, h.index_ne])
  refine ⟨c.registered r, ?_, h.extend [] (by simp) ?_ hinterest ?_ h.notConnected ?_⟩
  · simp only [TcpConnection.connectDestroyed, h.notConnected, Bool.false_eq_true, if_false,
      TcpConnection.removeChannel, hr, Option.map_some, Option.bind_eq_bind, Option.pure_def,
      Option.bind_some]
  · simp [TcpConnection.registered, hchannel]
  · simpa [TcpConnection.registered, hchannel, Channel.isWriting, registration] using h.notWriting
  · simp [TcpConnection.registered, hnil]

theorem Settled.setDisconnecting (h : c.Settled) : (c.setState .kDisconnecting).Settled :=
  ⟨h.index_ne, h.interest, h.notWriting, rfl, h.closed⟩

theorem setEvents_of_not_added (h : c.registration.Consistent)
    (hindex : c.channel_.index_ ≠ .kAdded) (events : Events) :
    ∃ d, c.setEvents events = some d ∧ d.trace = c.trace ++ [.epoll (.add events)] := by
  have hconsistent : EPollPoller.Registration.Consistent
      { c.registration with channel := { c.channel_ with events_ := events } } := h
  rw [TcpConnection.setEvents, EPollPoller.updateChannel_add hconsistent hindex]
  exact ⟨_, rfl, rfl⟩

theorem emitIf_trace (c : TcpConnection) (p : Prop) [Decidable p] (e : Effect) :
    ∃ es, (c.emitIf p e).trace = c.trace ++ es := by
  obtain heq | heq := c.emitIf_eq p e
  · exact ⟨[e], by rw [heq, TcpConnection.emit]⟩
  · exact ⟨[], by rw [heq, List.append_nil]⟩

theorem Settled.keepUnsent (h : c.Settled) {es : List Effect} (hchannel : d.channel_ = c.channel_)
    (hinterest : d.interest = c.interest) (htrace : d.trace = c.trace ++ es) (rest : Bytes) :
    ∃ d', d.keepUnsent rest = some d' ∧ ¬ StaysClosed d'.trace := by
  obtain ⟨es', hmark⟩ := d.emitIf_trace (d.highWaterMark_ ≤ d.outputBuffer_.readableBytes +
    rest.length ∧ d.outputBuffer_.readableBytes < d.highWaterMark_ ∧
    d.highWaterMarkCallback_ = true) (.highWaterMark (d.outputBuffer_.readableBytes + rest.length))
  let c' : TcpConnection := { d.checkHighWaterMark rest.length with
    outputBuffer_ := d.outputBuffer_.append rest }
  have hindex : c'.channel_.index_ ≠ .kAdded := by
    change d.channel_.index_ ≠ .kAdded
    rw [hchannel]
    exact h.index_ne
  have hconsistent : c'.registration.Consistent := by
    refine iff_of_false ?_ hindex
    change ¬ d.interest.isSome = true
    rw [hinterest, h.interest]
    exact Bool.false_ne_true
  let events : Events := { c'.channel_.events_ with write := true }
  obtain ⟨d', hd', htrace'⟩ := setEvents_of_not_added hconsistent hindex events
  have hwriting : c'.channel_.isWriting = false := by
    change d.channel_.isWriting = false
    rw [hchannel]
    exact h.notWriting
  have hadd : Effect.epoll (.add events) ∈ es ++ (es' ++ [.epoll (.add events)]) :=
    List.mem_append_right _ (List.mem_append_right _ (List.mem_singleton_self _))
  refine ⟨d', ?_, h.not_staysClosed hadd rfl ?_⟩
  · exact (if_neg (by rw [hwriting]; exact Bool.false_ne_true)).trans hd'
  · refine htrace'.trans ?_
    change (d.checkHighWaterMark rest.length).trace ++ _ = _
    rw [TcpConnection.checkHighWaterMark, hmark, htrace, List.append_assoc, List.append_assoc]

/-- A queued message does no harm when it is empty, or when nothing is in front of it and the
kernel refuses it because the peer is gone. -/
def Refused (c : TcpConnection) (data : Bytes) (result : WriteResult) : Prop :=
  data = [] ∨ (c.outputBuffer_.readable = [] ∧ result = .peerGone)

theorem Settled.writeDirectly (h : c.Settled) (data : Bytes) {result : WriteResult}
    (hresult : result ≠ .peerGone) :
    ∃ d n es, c.writeDirectly data result = (d, n, false) ∧ d.channel_ = c.channel_ ∧
      d.interest = c.interest ∧ d.trace = c.trace ++ es ∧ (data = [] → d.Settled) ∧
      (n ≠ 0 → ∃ e ∈ es, e.harmless = false) := by
  cases result with
  | accepted n =>
    obtain ⟨es, hcomplete⟩ := (c.emit (.wrote (data.take (min n data.length)))).emitIf_trace
      (min n data.length = data.length ∧ c.writeCompleteCallback_ = true) .writeComplete
    refine ⟨_, _, [.wrote (data.take (min n data.length))] ++ es, rfl, rfl, rfl, ?_, ?_, ?_⟩
    · rw [← List.append_assoc]
      exact hcomplete
    · intro heq
      obtain rfl := heq
      have hwrote : (c.emit (.wrote (List.take (min n 0) []))).Settled :=
        h.emit (by simp [Effect.harmless])
      exact hwrote.emitIf _ rfl
    · intro hn
      refine ⟨_, List.mem_append_left _ (List.mem_singleton_self _), ?_⟩
      have hne : data.take (min n data.length) ≠ [] := by
        intro hnil
        have hlen := congrArg List.length hnil
        rw [List.length_take, List.length_nil] at hlen
        omega
      exact Bool.eq_false_iff.2 (mt List.isEmpty_iff.1 hne)
  | wouldBlock => exact ⟨c, 0, [], rfl, rfl, rfl, (List.append_nil _).symm, fun _ ↦ h, by simp⟩
  | peerGone => exact absurd rfl hresult
  | failed => exact ⟨c, 0, [], rfl, rfl, rfl, (List.append_nil _).symm, fun _ ↦ h, by simp⟩

theorem Settled.sendInLoop (h : c.Settled) (data : Bytes) (result : WriteResult) :
    ∃ d, c.sendInLoop data result = some d ∧ (Refused c data result → d.Settled) ∧
      (StaysClosed d.trace → Refused c data result) := by
  have hempty := c.outputBuffer_.readableBytes_eq_zero_iff
  by_cases hbuffer : c.outputBuffer_.readable = []
  · have hdirect : c.channel_.isWriting = false ∧ c.outputBuffer_.readableBytes = 0 :=
      ⟨h.notWriting, hempty.2 hbuffer⟩
    by_cases hgone : result = .peerGone
    · subst hgone
      exact ⟨c, sendInLoop_peerGone hdirect data, fun _ ↦ h, fun _ ↦ .inr ⟨hbuffer, rfl⟩⟩
    · obtain ⟨d, n, es, hwrite, hchannel, hinterest, htrace, hsettled, hharm⟩ :=
        h.writeDirectly data hgone
      simp only [TcpConnection.sendInLoop, if_pos hdirect, hwrite, true_and]
      have hrefused : Refused c data result → data = [] :=
        fun hor ↦ hor.resolve_right fun hand ↦ hgone hand.2
      split
      · next hrest =>
        obtain ⟨d', hd', hnot⟩ := h.keepUnsent hchannel hinterest htrace (data.drop n)
        have hdata : data ≠ [] := by
          intro heq
          obtain rfl := heq
          exact absurd hrest (by simp)
        exact ⟨d', hd', fun hor ↦ absurd (hrefused hor) hdata, fun hstays ↦ absurd hstays hnot⟩
      · next hrest =>
        refine ⟨d, rfl, fun hor ↦ hsettled (hrefused hor), fun hstays ↦ .inl ?_⟩
        by_contra hdata
        have hlen := List.length_pos_iff.2 hdata
        obtain ⟨e, he, hbad⟩ := hharm (by omega)
        exact h.not_staysClosed he hbad htrace hstays
  · have hdirect : ¬ (c.channel_.isWriting = false ∧ c.outputBuffer_.readableBytes = 0) :=
      fun hand ↦ hbuffer (hempty.1 hand.2)
    simp only [TcpConnection.sendInLoop, if_neg hdirect, true_and, Nat.sub_zero, List.drop_zero]
    split
    · next hpos =>
      obtain ⟨d', hd', hnot⟩ := h.keepUnsent rfl rfl (List.append_nil _).symm data
      refine ⟨d', hd', fun hor ↦ ?_, fun hstays ↦ absurd hstays hnot⟩
      obtain rfl | ⟨hnil, -⟩ := hor
      · exact absurd hpos (by simp)
      · exact absurd hnil hbuffer
    · next hzero =>
      have hdata : data = [] := List.length_eq_zero_iff.1 (by omega)
      exact ⟨c, rfl, fun _ ↦ h, fun _ ↦ .inl hdata⟩

end TcpConnection

namespace CrossThread

open Foundation.Run TcpConnection

variable {w t : World} {c : TcpConnection}

theorem messageCallback_open (h : c.Open) (calls : List LoopCall) :
    ∃ d, messageCallback calls c () = some (d, ()) ∧ d.Open := by
  have hstep : ∀ (c : TcpConnection) (call : LoopCall), True → c.Open →
      ∃ d, LoopCall.apply c call = some d ∧ d.Open := by
    intro c call _ h
    cases call with
    | retrieveAll => exact ⟨_, rfl, h.consistent, h.notClosing⟩
    | send buf result => exact h.send buf result
    | shutdown => exact ⟨_, rfl, h.shutdown⟩
  obtain ⟨d, hd, hopen⟩ := possible hstep h (along_of_forall (fun _ _ ↦ trivial) c calls)
  exact ⟨d, by rw [messageCallback, hd, Option.map_some], hopen⟩

theorem handleRead_open (h : c.Open) (hadded : c.channel_.index_ = .kAdded)
    (calls : List LoopCall) (result : ReadResult) :
    ∃ d, c.handleRead (messageCallback calls) () result = some (d, ()) ∧ (d.Open ∨ d.Settled) := by
  cases result with
  | read bytes =>
    have hfilled : Open { c with inputBuffer_ := c.inputBuffer_.readFd bytes } :=
      ⟨h.consistent, h.notClosing⟩
    simp only [handleRead]
    split
    · obtain ⟨d, hd, hopen⟩ := messageCallback_open hfilled calls
      exact ⟨d, hd, .inl hopen⟩
    · refine ⟨_, ?_, .inr hfilled.closed_settled⟩
      rw [handleClose_eq hfilled.consistent hadded, Option.map_some]
  | failed => exact ⟨c, rfl, .inl h⟩

theorem writeStage_phase (h : c.Open ∨ c.Settled) (write : Bool) (result : WriteResult) :
    ∃ d, c.writeStage write result = some d ∧ (d.Open ∨ d.Settled) := by
  cases write with
  | false => exact ⟨c, rfl, h⟩
  | true =>
    obtain h | h := h
    · obtain ⟨d, hd, hopen⟩ := h.handleWrite result
      exact ⟨d, hd, .inl hopen⟩
    · exact ⟨c, h.handleWrite result, .inr h⟩

/-- One dispatch closes a connection at most once: after the close callback there is nothing
to read, and after the end of the stream nothing is written. -/
theorem handleEvent_phase (h : c.Open) (hadded : c.channel_.index_ = .kAdded) (revents : Revents)
    (readResult : ReadResult) (calls : List LoopCall) (writeResult : WriteResult) :
    ∃ d, c.handleEvent (messageCallback calls) () revents readResult writeResult = some (d, ()) ∧
      (d.Open ∨ d.Settled) := by
  have hread : ∃ d, (if revents.read then c.handleRead (messageCallback calls) () readResult
      else if revents.hangup then c.handleClose.map (·, ()) else some (c, ())) = some (d, ()) ∧
      (d.Open ∨ d.Settled) := by
    split_ifs
    · exact handleRead_open h hadded calls readResult
    · rw [handleClose_eq h.consistent hadded]
      exact ⟨_, rfl, .inr h.closed_settled⟩
    · exact ⟨c, rfl, .inl h⟩
  obtain ⟨d, hd, hphase⟩ := hread
  obtain ⟨e, he, hphase⟩ := writeStage_phase hphase revents.write writeResult
  refine ⟨e, ?_, hphase⟩
  rw [handleEvent_eq, hd, Option.bind_some, he, Option.map_some]

/-- A task does a connection no harm unless it has a message for one that is closed. -/
def Functor.Safe (c : TcpConnection) (result : WriteResult) : Functor → Prop
  | .sendInLoop _ len _ =>
    sinceClosing c.trace = [] ∨ len = 0 ∨
      (c.outputBuffer_.readable = [] ∧ result = .peerGone)
  | .shutdownInLoop | .connectDestroyed => True

def Safe (w : World) : Action → Prop
  | .runFunctor result => ∀ functor ∈ w.functors.head?, functor.Safe w.conn result
  | _ => True

instance (c : TcpConnection) (result : WriteResult) : DecidablePred (Functor.Safe c result)
  | .sendInLoop .. => inferInstanceAs (Decidable (_ ∨ _ ∨ (_ ∧ _)))
  | .shutdownInLoop | .connectDestroyed => inferInstanceAs (Decidable True)

instance (w : World) : DecidablePred (Safe w)
  | .runFunctor result =>
    inferInstanceAs (Decidable (∀ functor ∈ w.functors.head?, functor.Safe w.conn result))
  | .store .. | .release _ | .callSend _ | .callShutdown | .continueCall _ | .queueDestroyed
  | .swapFunctors | .event .. => inferInstanceAs (Decidable True)

theorem safe_runFunctor {functor : Functor} {rest : List Functor} {result : WriteResult}
    (h : w.functors = functor :: rest) :
    Safe w (.runFunctor result) ↔ functor.Safe w.conn result := by
  simp only [Safe, h, List.head?_cons, Option.mem_some_iff, forall_eq']

theorem phase_of_conn_eq (h : w.conn.Open ∨ w.conn.Settled)
    (hconn : t.conn = w.conn ∨ t.conn = w.conn.setState .kDisconnecting) :
    t.conn.Open ∨ t.conn.Settled := by
  obtain hconn | hconn := hconn
  · rwa [hconn]
  · rw [hconn]
    exact h.imp (fun h ↦ h.setState _) fun h ↦ h.setDisconnecting

theorem setMemory_conn {address : ℕ} {text : Option Text} (h : w.setMemory address text = some t) :
    t.conn = w.conn := by
  rw [World.setMemory] at h
  split at h
  · cases h
  · cases h
    rfl

theorem continueCall_conn {i : ℕ} (h : w.continueCall i = some t) :
    t.conn = w.conn ∨ t.conn = w.conn.setState .kDisconnecting := by
  rw [World.continueCall] at h
  split at h
  · cases h
  · obtain ⟨text, -, rfl⟩ := Option.map_eq_some_iff.1 h
    exact .inl rfl
  · cases h
    exact .inr rfl
  · cases h
    exact .inl rfl

theorem runFunctor_phase (h : w.conn.Open ∨ w.conn.Settled) {result : WriteResult}
    (ht : w.runFunctor result = some t) :
    (Safe w (.runFunctor result) → t.conn.Open ∨ t.conn.Settled) ∧
      (StaysClosed t.conn.trace → Safe w (.runFunctor result)) := by
  rw [World.runFunctor] at ht
  split at ht
  · cases ht
  · next data len sent rest hfunctors =>
    rw [safe_runFunctor hfunctors, Functor.Safe]
    obtain ⟨text, htext, ht⟩ := Option.bind_eq_some_iff.1 ht
    split at ht
    · next hlen =>
      obtain ⟨d, hd, ht⟩ := Option.bind_eq_some_iff.1 ht
      obtain rfl := Option.some.inj ht
      have hnil : text.block.take len = [] ↔ len = 0 := by
        rw [← List.length_eq_zero_iff, List.length_take_of_le hlen]
      obtain hopen | hsettled := h
      · obtain ⟨d', hd', hopen'⟩ := hopen.sendInLoop (text.block.take len) result
        obtain rfl := Option.some.inj (hd.symm.trans hd')
        exact ⟨fun _ ↦ .inl hopen', fun _ ↦ .inl hopen.notClosing⟩
      · obtain ⟨d', hd', hsafe, hstays⟩ := hsettled.sendInLoop (text.block.take len) result
        obtain rfl := Option.some.inj (hd.symm.trans hd')
        refine ⟨fun hor ↦ .inr (hsafe ?_), fun hd ↦ .inr ((hstays hd).imp_left hnil.1)⟩
        exact (hor.resolve_left hsettled.sinceClosing_ne_nil).imp_left hnil.2
    · cases ht
  · next rest hfunctors =>
    rw [safe_runFunctor hfunctors, Functor.Safe]
    obtain rfl := Option.some.inj ht
    exact ⟨fun _ ↦ h.imp (fun h ↦ h.shutdownInLoop) fun h ↦ h.shutdownInLoop, fun _ ↦ trivial⟩
  · next rest hfunctors =>
    rw [safe_runFunctor hfunctors, Functor.Safe]
    obtain ⟨d, hd, rfl⟩ := Option.map_eq_some_iff.1 ht
    refine ⟨fun _ ↦ ?_, fun _ ↦ trivial⟩
    obtain hopen | hsettled := h
    · obtain ⟨d', hd', hopen'⟩ := hopen.connectDestroyed
      exact .inl (Option.some.inj (hd.symm.trans hd') ▸ hopen')
    · obtain ⟨d', hd', hsettled'⟩ := hsettled.connectDestroyed
      exact .inr (Option.some.inj (hd.symm.trans hd') ▸ hsettled')

theorem event_phase (h : w.conn.Open ∨ w.conn.Settled) {revents : Revents} {readResult : ReadResult}
    {calls : List LoopCall} {writeResult : WriteResult}
    (ht : w.step (.event revents readResult calls writeResult) = some t) :
    t.conn.Open ∨ t.conn.Settled := by
  rw [World.step] at ht
  split at ht
  · next hpossible =>
    obtain ⟨-, hpossible⟩ := Bool.and_eq_true_iff.1 hpossible
    obtain ⟨⟨d, u⟩, hd, rfl⟩ := Option.map_eq_some_iff.1 ht
    obtain hopen | hsettled := h
    · have hadded : w.conn.channel_.index_ = .kAdded := by
        refine hopen.consistent.1 ?_
        obtain ⟨events, hinterest, -⟩ := Option.any_eq_true _ _ |>.1 hpossible
        exact congrArg Option.isSome hinterest
      obtain ⟨d', hd', hphase⟩ :=
        handleEvent_phase hopen hadded revents readResult calls writeResult
      obtain rfl := congrArg Prod.fst (Option.some.inj (hd.symm.trans hd'))
      exact hphase
    · rw [Revents.possible, hsettled.interest] at hpossible
      cases hpossible
  · cases ht

theorem step_phase (h : w.conn.Open ∨ w.conn.Settled) {a : Action} (ht : w.step a = some t) :
    (Safe w a → t.conn.Open ∨ t.conn.Settled) ∧ (StaysClosed t.conn.trace → Safe w a) := by
  cases a with
  | store address text =>
    exact ⟨fun _ ↦ phase_of_conn_eq h (.inl (setMemory_conn ht)), fun _ ↦ trivial⟩
  | release address =>
    exact ⟨fun _ ↦ phase_of_conn_eq h (.inl (setMemory_conn ht)), fun _ ↦ trivial⟩
  | callSend address =>
    obtain ⟨text, -, rfl⟩ := Option.map_eq_some_iff.1 ht
    refine ⟨fun _ ↦ phase_of_conn_eq h (.inl ?_), fun _ ↦ trivial⟩
    split <;> rfl
  | callShutdown =>
    obtain rfl := Option.some.inj ht
    refine ⟨fun _ ↦ phase_of_conn_eq h (.inl ?_), fun _ ↦ trivial⟩
    split <;> rfl
  | continueCall i => exact ⟨fun _ ↦ phase_of_conn_eq h (continueCall_conn ht), fun _ ↦ trivial⟩
  | queueDestroyed =>
    obtain rfl := Option.some.inj ht
    exact ⟨fun _ ↦ h, fun _ ↦ trivial⟩
  | swapFunctors =>
    rw [World.step] at ht
    split at ht
    · obtain rfl := Option.some.inj ht
      exact ⟨fun _ ↦ h, fun _ ↦ trivial⟩
    · cases ht
  | runFunctor result => exact runFunctor_phase h ht
  | event revents readResult calls writeResult =>
    exact ⟨fun _ ↦ event_phase h ht, fun _ ↦ trivial⟩

theorem established_open (writeComplete highWater : Bool) (mark : ℕ) :
    (established writeComplete highWater mark).Open :=
  ⟨iff_of_true rfl rfl, rfl⟩

/-- The connection stays closed in every state of a run exactly if no step of the run gives a
closed connection a message that can do harm. -/
theorem stays_closed_iff (writeComplete highWater : Bool) (mark : ℕ) (memory : ℕ → Option Text)
    (actions : List Action)
    (h : run World.step (start (established writeComplete highWater mark) memory) actions =
      some t) :
    (∀ before after, actions = before ++ after →
      ∃ u, run World.step (start (established writeComplete highWater mark) memory) before =
        some u ∧ StaysClosed u.conn.trace) ↔
      Along World.step Safe (start (established writeComplete highWater mark) memory) actions := by
  have hstays : ∀ w : World, w.conn.Open ∨ w.conn.Settled → StaysClosed w.conn.trace := by
    intro w h
    exact h.elim (fun h ↦ .inl h.notClosing) fun h ↦ h.staysClosed
  have hstep : ∀ (w : World) (a : Action), (∃ t, w.step a = some t) →
      w.conn.Open ∨ w.conn.Settled → ∃ t, w.step a = some t ∧
        (Safe w a → t.conn.Open ∨ t.conn.Settled) ∧ (StaysClosed t.conn.trace → Safe w a) := by
    intro w a hpossible hphase
    obtain ⟨t, ht⟩ := hpossible
    exact ⟨t, ht, step_phase hphase ht⟩
  exact prefixes_iff hstays hstep (.inl (established_open ..)) (along_of_run h)

/-- Another thread tests the state, the peer goes away, and the message is queued. -/
def lateSend : List Action :=
  [.callSend 0, .event ⟨false, false, true, false⟩ (.read []) [] .failed, .continueCall 0,
    .swapFunctors]

theorem late_message_refused :
    let s := start (established false false 0) callerMemory
    ∀ before after, lateSend ++ [.runFunctor .peerGone] = before ++ after →
      ∃ u, run World.step s before = some u ∧ StaysClosed u.conn.trace :=
  (stays_closed_iff false false 0 callerMemory _ rfl).2 (by decide +kernel)

/-- The late message is written, the socket watched again, and the connection closed again. -/
theorem late_message_written :
    ∃ t, run World.step (start (established false false 0) callerMemory) (lateSend ++
        [.runFunctor (.accepted 2), .event ⟨true, false, false, false⟩ .failed [] .failed]) =
          some t ∧
      sinceClosing t.conn.trace = closeEffects ++ ([.wrote (lit "he"),
        .epoll (.add ⟨false, true⟩)] ++ closeEffects) ∧ ¬ StaysClosed t.conn.trace := by
  obtain ⟨t, ht, hsince⟩ : ∃ t, run World.step (start (established false false 0) callerMemory)
      (lateSend ++ [.runFunctor (.accepted 2),
        .event ⟨true, false, false, false⟩ .failed [] .failed]) = some t ∧
      sinceClosing t.conn.trace = closeEffects ++ ([.wrote (lit "he"),
        .epoll (.add ⟨false, true⟩)] ++ closeEffects) := ⟨_, rfl, rfl⟩
  exact ⟨t, ht, hsince, not_staysClosed hsince List.mem_cons_self rfl⟩

end CrossThread

end CppAiService

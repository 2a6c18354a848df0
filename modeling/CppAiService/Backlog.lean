import CppAiService.OutputStream

namespace CppAiService.TcpConnection

open Foundation.Run

variable {mark : ℕ} {c d : TcpConnection}

def told : List Effect → Bool :=
  List.foldl (fun told e ↦
    match e with
    | .highWaterMark _ => true
    | .writeComplete => false
    | _ => told) false

@[simp] theorem told_highWaterMark (trace : List Effect) (n : ℕ) :
    told (trace ++ [.highWaterMark n]) = true := by
  rw [told, List.foldl_append]
  rfl

@[simp] theorem told_writeComplete (trace : List Effect) :
    told (trace ++ [.writeComplete]) = false := by
  rw [told, List.foldl_append]
  rfl

@[simp] theorem told_wrote (trace : List Effect) (bytes : Bytes) :
    told (trace ++ [.wrote bytes]) = told trace := by
  rw [told, List.foldl_append]
  rfl

@[simp] theorem told_epoll (trace : List Effect) (operation : EpollCtl) :
    told (trace ++ [.epoll operation]) = told trace := by
  rw [told, List.foldl_append]
  rfl

@[simp] theorem told_shutdownWrite (trace : List Effect) :
    told (trace ++ [.shutdownWrite]) = told trace := by
  rw [told, List.foldl_append]
  rfl

structure SameCallbacks (c d : TcpConnection) : Prop where
  writeCompleteCallback_ : d.writeCompleteCallback_ = c.writeCompleteCallback_
  highWaterMarkCallback_ : d.highWaterMarkCallback_ = c.highWaterMarkCallback_
  highWaterMark_ : d.highWaterMark_ = c.highWaterMark_

/-- The user of a connection is told when the backlog reaches the mark, and told again when it is
gone; in between there is something to write. -/
structure Regulated (mark : ℕ) (c : TcpConnection) : Prop extends Ready c where
  writeCompleteCallback_ : c.writeCompleteCallback_ = true
  highWaterMarkCallback_ : c.highWaterMarkCallback_ = true
  highWaterMark_ : c.highWaterMark_ = mark
  above : mark ≤ c.outputBuffer_.readableBytes → told c.trace = true
  left : told c.trace = true → 0 < c.outputBuffer_.readableBytes

theorem Regulated.next (h : Regulated mark c) (hready : d.Ready) (hsame : SameCallbacks c d)
    (habove : mark ≤ d.outputBuffer_.readableBytes → told d.trace = true)
    (hleft : told d.trace = true → 0 < d.outputBuffer_.readableBytes) : Regulated mark d :=
  ⟨hready, hsame.writeCompleteCallback_.trans h.writeCompleteCallback_,
    hsame.highWaterMarkCallback_.trans h.highWaterMarkCallback_,
    hsame.highWaterMark_.trans h.highWaterMark_, habove, hleft⟩

theorem Regulated.quiet (h : Regulated mark c) (hready : d.Ready) (hsame : SameCallbacks c d)
    (hbytes : d.outputBuffer_.readableBytes = c.outputBuffer_.readableBytes)
    (htold : told d.trace = told c.trace) : Regulated mark d := by
  refine h.next hready hsame ?_ ?_
  · rw [hbytes, htold]
    exact h.above
  · rw [hbytes, htold]
    exact h.left

/-- Nothing is left, and that has been told. -/
theorem Regulated.done (h : Regulated mark c) (hmark : 0 < mark) (hready : d.Ready)
    (hsame : SameCallbacks c d) (hbytes : d.outputBuffer_.readableBytes = 0)
    (htold : told d.trace = false) : Regulated mark d := by
  refine h.next hready hsame (fun hle ↦ ?_) (fun htrue ↦ ?_)
  · omega
  · cases htold.symm.trans htrue

theorem Regulated.told_eq_false (h : Regulated mark c) (hempty : c.outputBuffer_.readableBytes = 0) :
    told c.trace = false := by
  rw [Bool.eq_false_iff]
  intro htold
  have hleft := h.left htold
  omega

theorem readableBytes_append (c : TcpConnection) (rest : Bytes) :
    (c.outputBuffer_.append rest).readableBytes =
      c.outputBuffer_.readableBytes + rest.length := by
  rw [← Buffer.length_readable, ← Buffer.length_readable, Buffer.readable_append, List.length_append]

theorem readableBytes_retrieveWritten (c : TcpConnection) (n : ℕ) :
    (c.retrieveWritten n).outputBuffer_.readableBytes = c.outputBuffer_.readableBytes - n := by
  rw [← Buffer.length_readable, ← Buffer.length_readable, readable_retrieveWritten,
    List.length_drop]

/-- Bytes go to the end of the buffer, and the poller is asked for write events; no callback is
queued for that. -/
theorem append_frame (h : c.Ready) {rest : Bytes} (hrest : rest ≠ []) :
    ∃ d, (if c.channel_.isWriting then some { c with outputBuffer_ := c.outputBuffer_.append rest }
        else { c with outputBuffer_ := c.outputBuffer_.append rest }.enableWriting) = some d ∧
      d.Ready ∧ SameCallbacks c d ∧ d.outputBuffer_ = c.outputBuffer_.append rest ∧
      told d.trace = told c.trace := by
  obtain ⟨d, hd, hflows⟩ := Flows.append h hrest
  refine ⟨d, hd, hflows.ready, ?_⟩
  split at hd
  · obtain rfl := Option.some.inj hd
    exact ⟨⟨rfl, rfl, rfl⟩, rfl, rfl⟩
  · have hne : { c.channel_.events_ with write := true } ≠ kNoneEvent := by
      intro heq
      have hwrite : true = false := congrArg Events.write heq
      cases hwrite
    have hwatched : Watched { c with outputBuffer_ := c.outputBuffer_.append rest } :=
      ⟨h.added, h.interest⟩
    obtain rfl := Option.some.inj ((hwatched.setEvents hne).symm.trans hd)
    exact ⟨⟨rfl, rfl, rfl⟩, rfl, told_epoll ..⟩

theorem Regulated.keepUnsent (h : Regulated mark c) {rest : Bytes} (hrest : rest ≠ []) :
    ∃ d, c.keepUnsent rest = some d ∧ Regulated mark d ∧
      d.outputBuffer_.readableBytes = c.outputBuffer_.readableBytes + rest.length := by
  have hpos := List.length_pos_of_ne_nil hrest
  have hmarked := (Flows.checkHighWaterMark h.toReady rest.length).ready
  obtain ⟨d, hd, hready, hsame, hbuffer, htold⟩ := append_frame hmarked hrest
  have hbytes : d.outputBuffer_.readableBytes = c.outputBuffer_.readableBytes + rest.length := by
    rw [hbuffer]
    exact readableBytes_append c rest
  refine ⟨d, hd, h.next hready ⟨hsame.1, hsame.2, hsame.3⟩ ?_ (fun _ ↦ by omega), hbytes⟩
  intro hle
  rw [htold, checkHighWaterMark, emitIf, h.highWaterMark_]
  dsimp only
  split_ifs with hcrossed
  · exact told_highWaterMark ..
  · refine h.above (Nat.le_of_not_lt fun hlt ↦ hcrossed ⟨?_, hlt, h.highWaterMarkCallback_⟩)
    omega

theorem Regulated.writeDirectly (h : Regulated mark c) (hmark : 0 < mark)
    (hempty : c.outputBuffer_.readableBytes = 0) (data : Bytes) (result : WriteResult) :
    ∃ d n fault, c.writeDirectly data result = (d, n, fault) ∧ Regulated mark d ∧
      d.outputBuffer_.readableBytes = 0 := by
  cases result with
  | accepted n =>
    refine ⟨_, _, _, rfl, ?_, hempty⟩
    have htold : told (c.trace ++ [.wrote (data.take (min n data.length))]) = false :=
      (told_wrote ..).trans (h.told_eq_false hempty)
    refine h.done hmark (h.toReady.congr rfl rfl rfl) ⟨rfl, rfl, rfl⟩ hempty ?_
    rw [emitIf]
    dsimp only
    split
    · exact told_writeComplete ..
    · exact htold
  | wouldBlock => exact ⟨c, _, _, rfl, h, hempty⟩
  | peerGone => exact ⟨c, _, _, rfl, h, hempty⟩
  | failed => exact ⟨c, _, _, rfl, h, hempty⟩

theorem Regulated.sendInLoop (h : Regulated mark c) (hmark : 0 < mark) (data : Bytes)
    (result : WriteResult) :
    ∃ d, c.sendInLoop data result = some d ∧ Regulated mark d ∧
      d.outputBuffer_.readableBytes ≤ c.outputBuffer_.readableBytes + data.length := by
  have hkeep {u : TcpConnection} (hu : Regulated mark u)
      (hle : u.outputBuffer_.readableBytes ≤ c.outputBuffer_.readableBytes) (n : ℕ) (fault : Bool) :
      ∃ d, (if fault = false ∧ 0 < data.length - n then u.keepUnsent (data.drop n) else some u) =
          some d ∧ Regulated mark d ∧
        d.outputBuffer_.readableBytes ≤ c.outputBuffer_.readableBytes + data.length := by
    split
    · next hrest =>
      have hne : data.drop n ≠ [] := fun hnil ↦ by
        have hlength := List.drop_eq_nil_iff.1 hnil
        omega
      obtain ⟨d, hd, hregulated, hbytes⟩ := hu.keepUnsent hne
      rw [List.length_drop] at hbytes
      exact ⟨d, hd, hregulated, by omega⟩
    · exact ⟨u, rfl, hu, by omega⟩
  by_cases hdirect : c.channel_.isWriting = false ∧ c.outputBuffer_.readableBytes = 0
  · obtain ⟨u, n, fault, hwrite, hu, hempty⟩ := h.writeDirectly hmark hdirect.2 data result
    rw [TcpConnection.sendInLoop, if_pos hdirect, hwrite]
    exact hkeep hu (by omega) n fault
  · rw [TcpConnection.sendInLoop, if_neg hdirect]
    exact hkeep h (Nat.le_refl _) 0 false

theorem Regulated.shutdown (h : Regulated mark c) :
    Regulated mark c.shutdown ∧
      c.shutdown.outputBuffer_.readableBytes = c.outputBuffer_.readableBytes := by
  rw [TcpConnection.shutdown]
  split
  · rw [shutdownInLoop]
    split
    · exact ⟨h.quiet (h.toReady.congr rfl rfl rfl) ⟨rfl, rfl, rfl⟩ rfl rfl, rfl⟩
    · exact ⟨h.quiet (h.toReady.congr rfl rfl rfl) ⟨rfl, rfl, rfl⟩ rfl (told_shutdownWrite ..), rfl⟩
  · exact ⟨h, rfl⟩

theorem Regulated.drained (h : Regulated mark c) (hmark : 0 < mark) {n : ℕ}
    (hempty : (c.retrieveWritten n).outputBuffer_.readableBytes = 0) :
    ∃ d, (c.retrieveWritten n).drained = some d ∧ Regulated mark d ∧
      d.outputBuffer_.readableBytes = 0 := by
  have hwatched : (c.retrieveWritten n).Watched := ⟨h.added, h.interest⟩
  have hne : { c.channel_.events_ with write := false } ≠ kNoneEvent := by
    intro heq
    have hread : c.channel_.events_.read = false := congrArg Events.read heq
    cases h.reading.symm.trans hread
  let u := (c.retrieveWritten n).modified { c.channel_.events_ with write := false }
  have hdisable : (c.retrieveWritten n).disableWriting = some u := hwatched.setEvents hne
  have hready : u.Ready := by
    refine ⟨⟨rfl, rfl⟩, h.reading, iff_of_false Bool.false_ne_true ?_⟩
    rw [not_not]
    exact (Buffer.readableBytes_eq_zero_iff _).1 hempty
  let v := u.emit .writeComplete
  have hv : Regulated mark v := h.done hmark (hready.congr rfl rfl rfl) ⟨rfl, rfl, rfl⟩ hempty
    (told_writeComplete ..)
  have hcomplete : u.emitIf (u.writeCompleteCallback_ = true) .writeComplete = v := by
    rw [emitIf, if_pos (show u.writeCompleteCallback_ = true from h.writeCompleteCallback_)]
    rfl
  refine ⟨if v.state_ = .kDisconnecting then v.shutdownInLoop else v, ?_, ?_⟩
  · rw [TcpConnection.drained, hdisable]
    simp only [Option.bind_eq_bind, Option.bind_some, hcomplete]
    rfl
  · split
    · exact ⟨hv.quiet (hv.toReady.congr rfl rfl rfl) ⟨rfl, rfl, rfl⟩ rfl (told_shutdownWrite ..),
        hempty⟩
    · exact ⟨hv, hempty⟩

theorem Regulated.handleWrite (h : Regulated mark c) (hmark : 0 < mark) (result : WriteResult) :
    ∃ d, c.handleWrite result = some d ∧ Regulated mark d ∧
      d.outputBuffer_.readableBytes ≤ c.outputBuffer_.readableBytes ∧
      ∀ n, result = .accepted n → 0 < n →
        d.outputBuffer_.readableBytes ≤ c.outputBuffer_.readableBytes - 1 := by
  have hidle (hleft : ∀ n, result = .accepted n → 0 < n → c.outputBuffer_.readableBytes = 0) :
      Regulated mark c ∧ c.outputBuffer_.readableBytes ≤ c.outputBuffer_.readableBytes ∧
        ∀ n, result = .accepted n → 0 < n →
          c.outputBuffer_.readableBytes ≤ c.outputBuffer_.readableBytes - 1 := by
    refine ⟨h, Nat.le_refl _, fun n hn hpos ↦ ?_⟩
    have hzero := hleft n hn hpos
    omega
  unfold TcpConnection.handleWrite
  split
  · next hwriting =>
    cases result with
    | accepted n =>
      dsimp only
      generalize hmin : min n c.outputBuffer_.readableBytes = k
      have hbytes := readableBytes_retrieveWritten c k
      split_ifs with hzero hdone
      · refine ⟨c, rfl, hidle fun n' hn' hpos ↦ ?_⟩
        cases hn'
        omega
      · obtain ⟨d, hd, hregulated, hempty⟩ := h.drained hmark hdone
        exact ⟨d, hd, hregulated, by omega, fun _ _ _ ↦ by omega⟩
      · have hleft : (c.retrieveWritten k).outputBuffer_.readable ≠ [] :=
          fun hnil ↦ hdone ((Buffer.readableBytes_eq_zero_iff _).2 hnil)
        have hready : (c.retrieveWritten k).Ready :=
          ⟨⟨h.added, h.interest⟩, h.reading, iff_of_true hwriting hleft⟩
        have htold : told (c.retrieveWritten k).trace = told c.trace := told_wrote ..
        refine ⟨_, rfl, h.next hready ⟨rfl, rfl, rfl⟩ (fun hle ↦ ?_) (fun _ ↦ by omega), by omega,
          fun _ _ _ ↦ by omega⟩
        exact htold.trans (h.above (by omega))
    | wouldBlock => exact ⟨c, rfl, hidle nofun⟩
    | peerGone => exact ⟨c, rfl, hidle nofun⟩
    | failed => exact ⟨c, rfl, hidle nofun⟩
  · next hwriting =>
    have hnil := not_not.1 (mt h.writing_iff.2 hwriting)
    exact ⟨c, rfl, hidle fun _ _ _ ↦ (Buffer.readableBytes_eq_zero_iff _).2 hnil⟩

/-- Who is told of a backlog sends nothing until he is told that it is gone, and no message is
longer than that. -/
def Heeds (longest : ℕ) (s : TcpConnection × Bytes) (op : OutputOp) : Prop :=
  ∀ buf result, op = .send buf result → told s.1.trace = false ∧ buf.length ≤ longest

theorem Regulated.step (h : Regulated mark c) (hmark : 0 < mark) (longest : ℕ) (sent : Bytes)
    (op : OutputOp) :
    ∃ s, outputStep (c, sent) op = some s ∧ Regulated mark s.1 ∧
      (Heeds longest (c, sent) op → c.outputBuffer_.readableBytes < mark + longest →
        s.1.outputBuffer_.readableBytes < mark + longest) := by
  cases op with
  | send buf result =>
    have hbelow : Heeds longest (c, sent) (.send buf result) →
        c.outputBuffer_.readableBytes + buf.length < mark + longest := by
      intro hheeds
      obtain ⟨htold, hlength⟩ := hheeds buf result rfl
      have hlt : c.outputBuffer_.readableBytes < mark := by
        by_contra hle
        cases htold.symm.trans (h.above (Nat.le_of_not_lt hle))
      omega
    cases hc : c.connected with
    | true =>
      obtain ⟨d, hd, hregulated, hle⟩ := h.sendInLoop hmark buf result
      refine ⟨(d, sent ++ buf), ?_, hregulated, fun hheeds _ ↦ hle.trans_lt (hbelow hheeds)⟩
      simp only [outputStep, TcpConnection.send, hc, if_true, hd, Option.map_some]
    | false =>
      refine ⟨(c, sent), ?_, h, fun _ hlt ↦ hlt⟩
      simp only [outputStep, TcpConnection.send, hc, Bool.false_eq_true, if_false,
        Option.map_some, List.append_nil]
  | shutdown =>
    obtain ⟨hregulated, hbytes⟩ := h.shutdown
    exact ⟨_, rfl, hregulated, fun _ hlt ↦ hbytes ▸ hlt⟩
  | handleWrite result =>
    obtain ⟨d, hd, hregulated, hle, -⟩ := h.handleWrite hmark result
    exact ⟨(d, sent), by rw [outputStep, hd, Option.map_some], hregulated,
      fun _ hlt ↦ hle.trans_lt hlt⟩

end CppAiService.TcpConnection

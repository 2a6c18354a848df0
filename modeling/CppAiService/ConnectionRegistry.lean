import CppAiService.ConnectionStages
import CppAiService.MessageFraming

namespace CppAiService.TcpServer

open Bytes Foundation.Log Foundation.Run

theorem length_decimal_le {n k : ℕ} (hk : 0 < k) (h : n < 10 ^ k) : (decimal n).length ≤ k := by
  rw [decimal, List.length_map]
  exact (Nat.length_toDigits_le_iff (by decide) hk).2 h

theorem length_toIpPort (address : InetAddress) : address.toIpPort.length ≤ 21 := by
  have hoctet : ∀ b : UInt8, (decimal b.toNat).length ≤ 3 := by
    intro b
    have hb := b.toNat_lt
    exact length_decimal_le (by decide) (by omega)
  have hport : (decimal address.port.toNat).length ≤ 5 := by
    have hp := address.port.toNat_lt
    exact length_decimal_le (by decide) (by omega)
  have h₀ := hoctet address.addr.1
  have h₁ := hoctet address.addr.2.1
  have h₂ := hoctet address.addr.2.2.1
  have h₃ := hoctet address.addr.2.2.2
  simp only [InetAddress.toIpPort, InetAddress.toIp, List.length_append]
  have hdot : (lit ".").length = 1 := rfl
  have hcolon : (lit ":").length = 1 := rfl
  omega

/-- The number of a connection fits the buffer, so that no two names are the same. -/
theorem connName_inj {name ipPort : Bytes} (hipPort : ipPort.length ≤ 21) {n m : ℕ}
    (hn : n < 2 ^ 31) (hm : m < 2 ^ 31)
    (h : connName name ipPort (n : ℤ) = connName name ipPort (m : ℤ)) : n = m := by
  have hwhole : ∀ k : ℕ, k < 2 ^ 31 → (lit "-" ++ ipPort ++ lit "#" ++ decimalInt k).take 63 =
      lit "-" ++ ipPort ++ lit "#" ++ decimal k := by
    intro k hk
    refine List.take_of_length_le ?_
    have hlength : (decimalInt k).length ≤ 10 := length_decimal_le (by decide) (by omega)
    have hdash : (lit "-").length = 1 := rfl
    have hsharp : (lit "#").length = 1 := rfl
    simp only [List.length_append]
    omega
  rw [connName, connName, hwhole n hn, hwhole m hm] at h
  have hdecimal := List.append_cancel_left (List.append_cancel_left h)
  rw [← MessageFraming.strtoul_decimal (n := n) (by omega), hdecimal,
    MessageFraming.strtoul_decimal (by omega)]

structure Sound (s : TcpServer) : Prop where
  ipPort : s.ipPort_.length ≤ 21
  few : s.conns.length < 2 ^ 31
  next : s.nextConnId_ = wrap32 (s.conns.length + 1)
  named : ∀ i c, s.conns[i]? = some c → c.name_ = connName s.name_ s.ipPort_ (i + 1 : ℕ)
  listed : ∀ name i, s.connections_.lookup name = some i →
    ∃ c, s.conns[i]? = some c ∧ c.name_ = name
  nodup : ∀ l, (s.loops l).reported.Nodup

structure Inv (s : TcpServer) : Prop where
  sound : Sound s
  tracked : ∀ i, Tracked s i

/-- The only task or event of a connection has been taken from its loop, to be carried out. -/
structure InHand (s : TcpServer) (i : ℕ) (stage : Stage) (c : Connection) : Prop where
  sound : Sound s
  others : ∀ j ≠ i, Tracked s j
  found : s.conns[i]? = some c
  off : Off s.loops i
  handled : ∀ l, (s.loops l).round.handles = some i → stage ≠ .absent ∧ stage ≠ .establishing
  recorded : Recorded s.connections_ i stage c

variable {s : TcpServer} {i : ℕ} {stage : Stage} {l : LoopId} {c c' : Connection}

theorem Sound.name_inj (h : Sound s) {j : ℕ} {d : Connection} (hc : s.conns[i]? = some c)
    (hd : s.conns[j]? = some d) (hname : c.name_ = d.name_) : i = j := by
  have hi := (List.getElem?_eq_some_iff.1 hc).1
  have hj := (List.getElem?_eq_some_iff.1 hd).1
  have hfew := h.few
  rw [h.named i c hc, h.named j d hd] at hname
  have hsucc := connName_inj h.ipPort (by omega) (by omega) hname
  omega

theorem Sound.setLoop (h : Sound s) {changed : Loop} (hnodup : changed.reported.Nodup) :
    Sound (s.setLoop l changed) :=
  ⟨h.ipPort, h.few, h.next, h.named, h.listed,
    forall_setLoop (P := fun _ loop ↦ loop.reported.Nodup) hnodup fun l' _ ↦ h.nodup l'⟩

theorem getElem?_setConn (hc : s.conns[i]? = some c) (c' : Connection) (j : ℕ) :
    (s.setConn i c').conns[j]? = if j = i then some c' else s.conns[j]? := by
  have hi := (List.getElem?_eq_some_iff.1 hc).1
  change (s.conns.set i c')[j]? = _
  rw [List.getElem?_set]
  by_cases hj : j = i
  · subst hj
    rw [if_pos rfl, if_pos hi, if_pos rfl]
  · rw [if_neg (Ne.symm hj), if_neg hj]

theorem Sound.setConn (h : Sound s) (hc : s.conns[i]? = some c) (hname : c'.name_ = c.name_) :
    Sound (s.setConn i c') := by
  refine ⟨h.ipPort, ?_, ?_, fun j d hd ↦ ?_, fun name j hj ↦ ?_, h.nodup⟩
  · rw [TcpServer.setConn, List.length_set]
    exact h.few
  · change s.nextConnId_ = wrap32 ((s.conns.set i c').length + 1)
    rw [List.length_set]
    exact h.next
  · rw [getElem?_setConn hc] at hd
    split at hd
    · next heq =>
      obtain rfl := Option.some.inj hd
      rw [hname, heq]
      exact h.named i c hc
    · exact h.named j d hd
  · obtain ⟨d, hd, hdname⟩ := h.listed name j hj
    rw [getElem?_setConn hc]
    split
    · next heq =>
      obtain rfl := Option.some.inj ((heq ▸ hd).symm.trans hc)
      exact ⟨c', rfl, hname.trans hdname⟩
    · exact ⟨d, hd, hdname⟩

theorem Tracked.setConn {j : ℕ} (h : Tracked s j) (hc : s.conns[i]? = some c) (hne : j ≠ i)
    (c' : Connection) : Tracked (s.setConn i c') j :=
  h.quieter (.refl ..) (by rw [getElem?_setConn hc, if_neg hne]) fun _ _ ↦ rfl

theorem InHand.setConn (h : InHand s i stage c) {stage' : Stage}
    (hrecorded : Recorded s.connections_ i stage' c') (hname : c'.name_ = c.name_)
    (hstage : stage' ≠ .absent ∧ stage' ≠ .establishing) :
    InHand (s.setConn i c') i stage' c' where
  sound := h.sound.setConn h.found hname
  others j hne := (h.others j hne).setConn h.found hne c'
  found := by rw [getElem?_setConn h.found, if_pos rfl]
  off := h.off
  handled _ _ := hstage
  recorded := hrecorded

/-- Nothing more is to be done. -/
theorem InHand.inv (h : InHand s i stage c) (hnone : ∀ l, stage.tasks i c.loop_ l = []) :
    Inv s := by
  refine ⟨h.sound, fun j ↦ ?_⟩
  by_cases hj : j = i
  · subst hj
    exact .present c stage h.found (h.off.posted hnone h.handled) h.recorded
  · exact h.others j hj

theorem InHand.queue (h : InHand s i stage c) {functor : Functor} (hconn : functor.conn = i)
    (htasks : ∀ l', stage.tasks i c.loop_ l' = if l' = l then [functor] else []) :
    Inv (s.queueInLoop l functor) := by
  refine ⟨h.sound.setLoop (h.sound.nodup l), fun j ↦ ?_⟩
  by_cases hj : j = i
  · subst hj
    exact .present c stage h.found (h.off.queue hconn htasks h.handled) h.recorded
  · exact (h.others j hj).quieter (.queueInLoop (hconn ▸ Ne.symm hj) l) rfl fun _ _ ↦ rfl

theorem Recorded.reach {connections_ connections_' : Map Bytes ℕ}
    (h : Recorded connections_ i stage c) (stage' : Stage) (e : Milestone) (he : e ≠ .handleEvent)
    (hpast : stage.past ++ [e] = stage'.past) {conn : TcpConnection} (hconn : stage'.Conn conn)
    (hlisted : connections_'.lookup c.name_ = if stage'.listed then some i else none) :
    Recorded connections_' i stage' { c with conn := conn, log := c.log ++ [e] } := by
  refine ⟨hconn, ?_, every_append h.events fun heq ↦ absurd heq he, hlisted⟩
  have hkept : [e].filter (· ≠ .handleEvent) = [e] := by simp [he]
  rw [List.filter_append, h.past, hkept, hpast]

theorem InHand.connectEstablished (h : InHand s i .establishing c) :
    ∃ s', s.connectEstablished i = some s' ∧ Inv s' := by
  obtain ⟨writeComplete, highWater, mark, hconn⟩ := h.recorded.conn
  have hreached := h.recorded.reach .up .connectEstablished nofun rfl
    (TcpConnection.up_established writeComplete highWater mark) h.recorded.listed
  refine ⟨_, ?_, (h.setConn hreached rfl ⟨nofun, nofun⟩).inv fun _ ↦ rfl⟩
  rw [TcpServer.connectEstablished, h.found, Option.bind_eq_bind, Option.bind_some, hconn,
    TcpConnection.connectEstablished_create]
  rfl

theorem InHand.connectDestroyed (h : InHand s i .destroying c)
    (hidle : (s.loops c.loop_).dispatching = false) :
    ∃ s', s.connectDestroyed i = some s' ∧ Inv s' := by
  obtain ⟨conn, hconn, hdown⟩ := TcpConnection.Down.connectDestroyed h.recorded.conn
  have hreached := h.recorded.reach .destroyed (.connectDestroyed false) nofun rfl hdown
    h.recorded.listed
  refine ⟨_, ?_, (h.setConn hreached rfl ⟨nofun, nofun⟩).inv fun _ ↦ rfl⟩
  rw [TcpServer.connectDestroyed, h.found, Option.bind_eq_bind, Option.bind_some, hconn, hidle]
  rfl

/-- The name of one connection is erased, which no other connection has. -/
theorem InHand.removeConnectionInLoop (h : InHand s i .removing c) :
    ∃ s', s.removeConnectionInLoop i = some s' ∧ Inv s' := by
  let c' : Connection := { c with log := c.log ++ [.removeConnectionInLoop] }
  let s₁ : TcpServer := { s.setConn i c' with connections_ := s.connections_.erase c.name_ }
  have hsound : Sound s₁ := by
    have hset : Sound (s.setConn i c') := h.sound.setConn h.found rfl
    refine ⟨hset.ipPort, hset.few, hset.next, hset.named, fun name j hj ↦ ?_, hset.nodup⟩
    refine hset.listed name j ?_
    by_cases hname : name = c.name_
    · rw [hname, AList.lookup_erase] at hj
      cases hj
    · rwa [AList.lookup_erase_ne hname] at hj
  have hothers : ∀ j ≠ i, Tracked s₁ j := by
    intro j hne
    refine (h.others j hne).quieter (.refl ..) ?_ fun d hd ↦ ?_
    · change (s.setConn i c').conns[j]? = _
      rw [getElem?_setConn h.found, if_neg hne]
    · exact AList.lookup_erase_ne fun hname ↦ hne (h.sound.name_inj hd h.found hname)
  have hreached : Recorded s₁.connections_ i .destroying c' := h.recorded.reach .destroying
    .removeConnectionInLoop nofun rfl h.recorded.conn (AList.lookup_erase ..)
  have hinHand : InHand s₁ i .destroying c' := by
    refine ⟨hsound, hothers, ?_, h.off, fun _ _ ↦ ⟨nofun, nofun⟩, hreached⟩
    change (s.setConn i c').conns[i]? = _
    rw [getElem?_setConn h.found, if_pos rfl]
  refine ⟨s₁.queueInLoop c.loop_ (.connectDestroyed i), ?_, hinHand.queue rfl fun _ ↦ rfl⟩
  rw [TcpServer.removeConnectionInLoop, h.found]
  rfl

theorem InHand.removeConnection (h : InHand s i .removing c) (thread : LoopId) :
    ∃ s', s.removeConnection thread i = some s' ∧ Inv s' := by
  rw [TcpServer.removeConnection, runInLoop]
  split
  · exact h.removeConnectionInLoop
  · exact ⟨_, rfl, h.queue rfl fun _ ↦ rfl⟩

theorem InHand.handleEvent (h : InHand s i .up c) (revents : Revents) (readResult : ReadResult) :
    ∃ s', s.handleEvent l i revents readResult = some s' ∧ Inv s' := by
  obtain ⟨conn, hconn, hclosed, hopen⟩ :=
    TcpConnection.Up.readStage h.recorded.conn revents readResult
  have hestablished : .connectEstablished ∈ c.log := by
    have hmem : .connectEstablished ∈ c.log.filter (· ≠ .handleEvent) :=
      h.recorded.past ▸ List.mem_singleton_self _
    exact List.mem_of_mem_filter hmem
  have hhandled : ∀ conn : TcpConnection, conn.Up →
      Recorded s.connections_ i .up { c with conn := conn, log := c.log ++ [.handleEvent] } := by
    intro conn hup
    refine ⟨hup, ?_, every_append h.recorded.events fun _ ↦ hestablished, h.recorded.listed⟩
    rw [List.filter_append, h.recorded.past]
    rfl
  simp only [TcpServer.handleEvent, h.found, hconn, Option.bind_eq_bind, Option.bind_some]
  cases hcloses : TcpConnection.closes revents readResult with
  | true =>
    have hreached := (hhandled c.conn h.recorded.conn).reach .removing .handleClose nofun rfl
      (hclosed hcloses) h.recorded.listed
    have hlog : c.log ++ [Milestone.handleEvent] ++ [.handleClose] =
        c.log ++ [.handleEvent, .handleClose] := List.append_assoc ..
    simp only [hlog] at hreached
    exact (h.setConn hreached rfl ⟨nofun, nofun⟩).removeConnection l
  | false =>
    have hkept := h.setConn (hhandled conn (hopen hcloses)) rfl ⟨nofun, nofun⟩
    exact ⟨_, rfl, hkept.inv fun _ ↦ rfl⟩

/-- The task at the front of a batch is taken from its loop. -/
theorem Inv.takeTask (h : Inv s) {functor : Functor} {functors : List Functor}
    (hround : (s.loops l).round = .execute (functor :: functors)) :
    ∃ c stage, InHand (s.setRound l (.execute functors)) functor.conn stage c ∧
      stage.tasks functor.conn c.loop_ l = [functor] := by
  have hothers : ∀ j ≠ functor.conn, Tracked (s.setRound l (.execute functors)) j := by
    intro j hne
    have habout : Loop.about { s.loops l with round := .execute functors } j =
        (s.loops l).about j := by
      rw [Loop.about, Loop.about, hround]
      exact (List.filter_cons_of_neg (by rw [decide_eq_true_eq]; exact Ne.symm hne)).symm
    refine (h.tracked j).quieter (.setLoop habout (absurd · List.not_mem_nil) ?_) rfl fun _ _ ↦ rfl
    exact (absurd · (Option.some_ne_none j).symm)
  cases h.tracked functor.conn with
  | absent _ hposted => cases (hposted.run hround rfl).1
  | present c stage hfound hposted hrecorded =>
    obtain ⟨htasks, hoff⟩ := hposted.run hround rfl
    refine ⟨c, stage, ⟨h.sound.setLoop List.nodup_nil, hothers, hfound, hoff, ?_, hrecorded⟩,
      htasks⟩
    exact forall_setLoop (P := fun _ loop ↦ loop.round.handles = some functor.conn → _)
      (absurd · (Option.some_ne_none _).symm) fun l' _ ↦ hposted.handled l'

theorem Inv.call (h : Inv s) {functor : Functor} {functors : List Functor}
    (hround : (s.loops l).round = .execute (functor :: functors)) :
    ∃ s', (s.setRound l (.execute functors)).call functor = some s' ∧ Inv s' := by
  obtain ⟨c, stage, hinHand, htasks⟩ := h.takeTask hround
  have hstage := Stage.eq_of_tasks htasks
  cases functor with
  | connectEstablished i =>
    obtain rfl : stage = .establishing := hstage
    exact hinHand.connectEstablished
  | removeConnectionInLoop i =>
    obtain rfl : stage = .removing := hstage
    exact hinHand.removeConnectionInLoop
  | connectDestroyed i =>
    obtain ⟨rfl, rfl⟩ : stage = .destroying ∧ c.loop_ = l := hstage
    refine hinHand.connectDestroyed ?_
    rw [loops_setRound]
    rfl

/-- The event at the front of the list is taken from its loop. -/
theorem Inv.takeEvent (h : Inv s) {revents : Revents} {active : List ActiveChannel}
    (hround : (s.loops l).round = .dispatch (.connection i revents :: active)) :
    ∃ c, InHand (s.setRound l (.handling i revents.write active)) i .up c := by
  have hreported : (s.loops l).reported = i :: active.filterMap ActiveChannel.conn? := by
    rw [Loop.reported, hround]
    rfl
  have hothers : ∀ j ≠ i, Tracked (s.setRound l (.handling i revents.write active)) j := by
    intro j hne
    have habout : Loop.about { s.loops l with round := .handling i revents.write active } j =
        (s.loops l).about j := by
      rw [Loop.about, Loop.about, hround]
      rfl
    refine (h.tracked j).quieter (.setLoop habout (fun hmem ↦ ?_) fun hhandles ↦ ?_) rfl
      fun _ _ ↦ rfl
    · rw [hreported]
      exact List.mem_cons_of_mem _ hmem
    · exact absurd (Option.some.inj hhandles).symm hne
  have hsound : Sound (s.setRound l (.handling i revents.write active)) :=
    h.sound.setLoop (List.nodup_cons.1 (hreported ▸ h.sound.nodup l)).2
  cases h.tracked i with
  | absent _ hposted => cases (hposted.handle (h.sound.nodup l) hround).1
  | present c stage hfound hposted hrecorded =>
    obtain ⟨rfl, -, hoff⟩ := hposted.handle (h.sound.nodup l) hround
    exact ⟨c, hsound, hothers, hfound, hoff, fun _ _ ↦ by decide, hrecorded⟩

/-- A loop goes on in its round; what it newly reports belongs to it and is watched. -/
theorem Inv.setLoop (h : Inv s) {changed : Loop}
    (habout : ∀ i, changed.about i = (s.loops l).about i)
    (hreported : ∀ i ∈ changed.reported, i ∈ (s.loops l).reported ∨
      ∃ c, s.conns[i]? = some c ∧ c.loop_ = l ∧ c.conn.interest ≠ none)
    (hhandled : ∀ i, changed.round.handles = some i → (s.loops l).round.handles = some i)
    (hnodup : changed.reported.Nodup) : Inv (s.setLoop l changed) := by
  refine ⟨h.sound.setLoop hnodup, fun i ↦ ?_⟩
  have htasks : ∀ {stage loop}, Posted s.loops i stage loop →
      ∀ l', ((s.setLoop l changed).loops l').about i = stage.tasks i loop l' :=
    fun hposted ↦ forall_setLoop (P := fun l loop' ↦ loop'.about i = _)
      ((habout i).trans (hposted.tasks l)) fun l' _ ↦ hposted.tasks l'
  have hhandled' : ∀ {stage loop}, Posted s.loops i stage loop →
      ∀ l', ((s.setLoop l changed).loops l').round.handles = some i →
        stage ≠ .absent ∧ stage ≠ .establishing :=
    fun hposted ↦ forall_setLoop (P := fun _ loop' ↦ loop'.round.handles = some i → _)
      (fun hhandles ↦ hposted.handled l (hhandled i hhandles)) fun l' _ ↦ hposted.handled l'
  cases h.tracked i with
  | absent hmissing hposted =>
    refine .absent hmissing ⟨htasks hposted, ?_, hhandled' hposted⟩
    refine forall_setLoop (P := fun l loop' ↦ i ∈ loop'.reported → _) (fun hmem ↦ ?_)
      fun l' _ ↦ hposted.reported l'
    obtain hmem | ⟨c, hc, -⟩ := hreported i hmem
    · exact hposted.reported l hmem
    · cases hmissing.symm.trans hc
  | present c stage hfound hposted hrecorded =>
    refine .present c stage hfound ⟨htasks hposted, ?_, hhandled' hposted⟩ hrecorded
    refine forall_setLoop (P := fun l loop' ↦ i ∈ loop'.reported → stage = .up ∧ l = c.loop_)
      (fun hmem ↦ ?_) fun l' _ ↦ hposted.reported l'
    obtain hmem | ⟨d, hd, hl, hinterest⟩ := hreported i hmem
    · exact hposted.reported l hmem
    · obtain rfl := Option.some.inj (hfound.symm.trans hd)
      exact ⟨Stage.eq_up hrecorded.conn hinterest, hl.symm⟩

theorem Inv.setConn (h : Inv s) (hfound : s.conns[i]? = some c)
    (hposted : Posted s.loops i stage c.loop_) (hrecorded : Recorded s.connections_ i stage c)
    {conn : TcpConnection} (hconn : stage.Conn conn) :
    Inv (s.setConn i { c with conn := conn }) := by
  refine ⟨h.sound.setConn hfound rfl, fun j ↦ ?_⟩
  by_cases hj : j = i
  · subst hj
    refine .present { c with conn := conn } stage ?_ hposted
      ⟨hconn, hrecorded.past, hrecorded.events, hrecorded.listed⟩
    rw [getElem?_setConn hfound, if_pos rfl]
  · exact (h.tracked j).setConn hfound hj _

theorem Inv.poll (h : Inv s) {active : List ActiveChannel} (hround : (s.loops l).round = .poll)
    (hactive : s.reported l active = true) : Inv (s.setRound l (.dispatch active)) := by
  obtain ⟨hnodup, hall⟩ := Bool.and_eq_true_iff.1 hactive
  refine h.setLoop (fun i ↦ ?_) (fun i hi ↦ .inr ?_) nofun (of_decide_eq_true hnodup)
  · rw [Loop.about, Loop.about, hround]
    rfl
  · obtain ⟨channel, hchannel, hconn⟩ := List.mem_filterMap.1 hi
    have hone := List.all_eq_true.1 hall channel hchannel
    cases channel with
    | acceptChannel_ => cases hconn
    | connection j revents =>
      obtain rfl := Option.some.inj hconn
      obtain ⟨c, hc, hpossible⟩ := Option.any_eq_true _ _ |>.1 hone
      obtain ⟨hl, hpossible⟩ := Bool.and_eq_true_iff.1 hpossible
      refine ⟨c, hc, of_decide_eq_true hl, fun hnone ↦ ?_⟩
      rw [Revents.possible, hnone] at hpossible
      cases hpossible

theorem Inv.swapFunctors (h : Inv s) (hround : (s.loops l).round = .dispatch []) :
    Inv (s.setLoop l ⟨.execute (s.loops l).pendingFunctors_, []⟩) := by
  refine h.setLoop (fun i ↦ ?_) (fun i hi ↦ absurd hi List.not_mem_nil) nofun List.nodup_nil
  rw [Loop.about, Loop.about, hround]
  change ((s.loops l).pendingFunctors_ ++ []).filter _ = _
  rw [List.append_nil]
  rfl

theorem Inv.endRound (h : Inv s) (hround : (s.loops l).round = .execute []) :
    Inv (s.setRound l .poll) := by
  refine h.setLoop (fun i ↦ ?_) (fun i hi ↦ absurd hi List.not_mem_nil) nofun List.nodup_nil
  rw [Loop.about, Loop.about, hround]
  rfl

/-- The front of the list of events is left behind. -/
theorem Inv.dispatched (h : Inv s) {active : List ActiveChannel}
    (hfunctors : (s.loops l).round.functors = [])
    (hactive : (s.loops l).round.active.filterMap ActiveChannel.conn? =
      active.filterMap ActiveChannel.conn?) : Inv (s.setRound l (.dispatch active)) := by
  refine h.setLoop (fun i ↦ ?_) (fun i hi ↦ .inl ?_) nofun ?_
  · rw [Loop.about, Loop.about, hfunctors]
    rfl
  · rw [Loop.reported, hactive]
    exact hi
  · have hnodup := h.sound.nodup l
    rwa [Loop.reported, hactive] at hnodup

theorem Inv.finishEvent (h : Inv s) {write : Bool} {active : List ActiveChannel}
    (hround : (s.loops l).round = .handling i write active) (writeResult : WriteResult) :
    ∃ s', (s.setRound l (.dispatch active)).finishEvent i write writeResult = some s' ∧ Inv s' := by
  have h' : Inv (s.setRound l (.dispatch active)) := by
    refine h.dispatched ?_ ?_
    · rw [hround]
      rfl
    · rw [hround]
      rfl
  have hhandles : (s.loops l).round.handles = some i := by
    rw [hround]
    rfl
  cases h.tracked i with
  | absent _ hposted => exact absurd rfl (hposted.handled l hhandles).1
  | present c stage hfound hposted hrecorded =>
    obtain ⟨conn, hwrite, hconn⟩ :=
      hrecorded.conn.writeStage (hposted.handled l hhandles).2 write writeResult
    have hquieter : Quieter s.loops (s.setRound l (.dispatch active)).loops i := by
      refine .setLoop ?_ ?_ nofun
      · rw [Loop.about, Loop.about, hround]
        rfl
      · rw [Loop.reported, Loop.reported, hround]
        exact id
    refine ⟨_, ?_, h'.setConn hfound (hposted.quieter hquieter) hrecorded hconn⟩
    have hfound' : (s.setRound l (.dispatch active)).conns[i]? = some c := hfound
    simp only [TcpServer.finishEvent, hfound', hwrite, Option.bind_eq_bind, Option.bind_some]
    rfl

theorem Inv.present (h : Inv s) (hi : i < s.conns.length) :
    ∃ c stage, s.conns[i]? = some c ∧ Posted s.loops i stage c.loop_ ∧
      Recorded s.connections_ i stage c := by
  cases h.tracked i with
  | absent hmissing => exact absurd hi (Nat.not_lt.2 (List.getElem?_eq_none_iff.1 hmissing))
  | present c stage hfound hposted hrecorded => exact ⟨c, stage, hfound, hposted, hrecorded⟩

theorem Inv.send (h : Inv s) (hi : i < s.conns.length) (buf : Bytes) (result : WriteResult) :
    ∃ s', s.step (.send i buf result) = some s' ∧ Inv s' := by
  obtain ⟨c, stage, hfound, hposted, hrecorded⟩ := h.present hi
  obtain ⟨conn, hsend, hconn⟩ := hrecorded.conn.send buf result
  refine ⟨_, ?_, h.setConn hfound hposted hrecorded hconn⟩
  simp only [step, hfound, hsend, Option.bind_eq_bind, Option.bind_some]
  rfl

theorem Inv.shutdown (h : Inv s) (hi : i < s.conns.length) :
    ∃ s', s.step (.shutdown i) = some s' ∧ Inv s' := by
  obtain ⟨c, stage, hfound, hposted, hrecorded⟩ := h.present hi
  refine ⟨_, ?_, h.setConn hfound hposted hrecorded hrecorded.conn.shutdown⟩
  simp only [step, hfound, Option.bind_eq_bind, Option.bind_some]
  rfl

theorem getNextLoop_eq (s : TcpServer) :
    ∃ ioLoop next, s.getNextLoop = (ioLoop, { s with next_ := next }) := by
  rw [getNextLoop]
  split
  · exact ⟨_, s.next_, rfl⟩
  · exact ⟨_, _, rfl⟩

def enter (s : TcpServer) (next : ℕ) (conn : Connection) : TcpServer :=
  { s with
    next_ := next
    nextConnId_ := wrap32 (s.nextConnId_ + 1)
    connections_ := s.connections_.insert conn.name_ s.conns.length
    conns := s.conns ++ [conn] }

theorem getElem?_enter (s : TcpServer) (next : ℕ) (conn : Connection) :
    (s.enter next conn).conns[s.conns.length]? = some conn := List.getElem?_concat_length

theorem getElem?_enter_of_ne (next : ℕ) (conn : Connection) {j : ℕ} (hj : j ≠ s.conns.length) :
    (s.enter next conn).conns[j]? = s.conns[j]? := by
  change (s.conns ++ [conn])[j]? = _
  obtain hlt | hgt := Nat.lt_or_gt_of_ne hj
  · exact List.getElem?_append_left hlt
  · rw [List.getElem?_eq_none (by rw [List.length_append, List.length_singleton]; omega),
      List.getElem?_eq_none (Nat.le_of_lt hgt)]

/-- The name given next is one that no connection has had. -/
theorem Sound.name_ne (h : Sound s) (hfew : s.conns.length + 1 < 2 ^ 31)
    (hc : s.conns[i]? = some c) :
    c.name_ ≠ connName s.name_ s.ipPort_ (s.conns.length + 1 : ℕ) := by
  intro heq
  have hi := (List.getElem?_eq_some_iff.1 hc).1
  rw [h.named i c hc] at heq
  have hsame := connName_inj h.ipPort (by omega) (by omega) heq
  omega

theorem Sound.enter (h : Sound s) (hfew : s.conns.length + 1 < 2 ^ 31) (next : ℕ)
    {conn : Connection} (hname : conn.name_ = connName s.name_ s.ipPort_ (s.conns.length + 1 : ℕ)) :
    Sound (s.enter next conn) := by
  refine ⟨h.ipPort, ?_, ?_, fun j c hc ↦ ?_, fun name j hj ↦ ?_, h.nodup⟩
  · change (s.conns ++ [conn]).length < 2 ^ 31
    rwa [List.length_append]
  · change wrap32 (s.nextConnId_ + 1) = wrap32 ((s.conns ++ [conn]).length + 1)
    rw [h.next, wrap32_add_wrap32, List.length_append, List.length_singleton, Nat.cast_succ]
  · by_cases hj : j = s.conns.length
    · subst hj
      obtain rfl := Option.some.inj ((getElem?_enter s next conn).symm.trans hc)
      exact hname
    · exact h.named j c (getElem?_enter_of_ne next conn hj ▸ hc)
  · change (s.connections_.insert conn.name_ s.conns.length).lookup name = some j at hj
    by_cases heq : name = conn.name_
    · rw [heq, AList.lookup_insert] at hj
      obtain rfl := Option.some.inj hj
      exact ⟨conn, getElem?_enter s next conn, heq.symm⟩
    · rw [AList.lookup_insert_ne heq] at hj
      obtain ⟨c, hc, hcname⟩ := h.listed name j hj
      have hlt := (List.getElem?_eq_some_iff.1 hc).1
      exact ⟨c, (getElem?_enter_of_ne next conn hlt.ne).trans hc, hcname⟩

/-- The entry of a new connection replaces none in the table. -/
theorem Inv.enter (h : Inv s) (hfew : s.conns.length + 1 < 2 ^ 31) (next : ℕ) {conn : Connection}
    (hname : conn.name_ = connName s.name_ s.ipPort_ (s.conns.length + 1 : ℕ))
    (hcreated : Stage.establishing.Conn conn.conn) (hlog : conn.log = []) :
    InHand (s.enter next conn) s.conns.length .establishing conn := by
  have hposted : Posted s.loops s.conns.length .absent .baseLoop_ := by
    cases h.tracked s.conns.length with
    | absent _ hposted => exact hposted
    | present c stage hfound => exact absurd (List.getElem?_eq_some_iff.1 hfound).1 (Nat.lt_irrefl _)
  refine ⟨h.sound.enter hfew next hname, fun j hj ↦ ?_, getElem?_enter s next conn,
    ⟨hposted.tasks, fun l hmem ↦ ?_⟩, fun l hhandles ↦ ?_, hcreated, ?_, ?_, AList.lookup_insert ..⟩
  · exact (h.tracked j).quieter (.refl ..) (getElem?_enter_of_ne next conn hj) fun c hc ↦
      AList.lookup_insert_ne (hname ▸ h.sound.name_ne hfew hc)
  · cases (hposted.reported l hmem).1
  · exact absurd rfl (hposted.handled l hhandles).1
  · rw [hlog]
    rfl
  · rw [hlog]
    exact every_nil

theorem Inv.newConnection (h : Inv s) (hfew : s.conns.length + 1 < 2 ^ 31) :
    ∃ s', s.newConnection = some s' ∧ Inv s' := by
  obtain ⟨ioLoop, next, hnext⟩ := s.getNextLoop_eq
  let conn : Connection := {
    name_ := connName s.name_ s.ipPort_ s.nextConnId_
    loop_ := ioLoop
    conn := .create s.writeCompleteCallback_ false (64 * 1024 * 1024)
    log := [] }
  have hname : conn.name_ = connName s.name_ s.ipPort_ (s.conns.length + 1 : ℕ) := by
    change connName s.name_ s.ipPort_ s.nextConnId_ = _
    rw [h.sound.next, wrap32_eq_self (by omega) (by omega), Nat.cast_succ]
  have hinHand := h.enter hfew next hname ⟨_, _, _, rfl⟩ rfl
  rw [TcpServer.newConnection, hnext]
  change ∃ s', (s.enter next conn).runInLoop .baseLoop_ ioLoop
    (.connectEstablished s.conns.length) = some s' ∧ _
  rw [runInLoop]
  split
  · exact hinHand.connectEstablished
  · exact ⟨_, rfl, hinHand.queue rfl fun _ ↦ rfl⟩

/-- The loops keep to their rounds, and there are fewer than `2 ^ 31` connections. -/
def allowed (s : TcpServer) : Action → Bool
  | .poll l active =>
    match (s.loops l).round with
    | .poll => s.reported l active
    | _ => false
  | .accept accepted =>
    match (s.loops .baseLoop_).round with
    | .dispatch (.acceptChannel_ :: _) => !accepted || s.conns.length + 1 < 2 ^ 31
    | _ => false
  | .handleEvent l _ =>
    match (s.loops l).round with
    | .dispatch (.connection _ _ :: _) => true
    | _ => false
  | .finishEvent l _ =>
    match (s.loops l).round with
    | .handling _ _ _ => true
    | _ => false
  | .swapFunctors l =>
    match (s.loops l).round with
    | .dispatch [] => true
    | _ => false
  | .runFunctor l =>
    match (s.loops l).round with
    | .execute (_ :: _) => true
    | _ => false
  | .endRound l =>
    match (s.loops l).round with
    | .execute [] => true
    | _ => false
  | .send i _ _ | .shutdown i => i < s.conns.length

theorem Inv.step {a : Action} (hallowed : s.allowed a = true) (h : Inv s) :
    ∃ s', s.step a = some s' ∧ Inv s' := by
  cases a with
  | poll l active =>
    dsimp only [allowed] at hallowed
    split at hallowed
    · next hround =>
      refine ⟨_, ?_, h.poll hround hallowed⟩
      simp only [TcpServer.step, hround, hallowed, if_true]
    · cases hallowed
  | accept accepted =>
    dsimp only [allowed] at hallowed
    split at hallowed
    · next active hround =>
      have h' : Inv (s.setRound .baseLoop_ (.dispatch active)) := by
        refine h.dispatched ?_ ?_
        · rw [hround]
          rfl
        · rw [hround]
          rfl
      cases accepted with
      | true =>
        obtain ⟨s', hs', hinv⟩ := h'.newConnection (of_decide_eq_true hallowed)
        refine ⟨s', ?_, hinv⟩
        simp only [TcpServer.step, hround, if_true, hs']
      | false =>
        refine ⟨_, ?_, h'⟩
        simp only [TcpServer.step, hround, Bool.false_eq_true, if_false]
    · cases hallowed
  | handleEvent l readResult =>
    dsimp only [allowed] at hallowed
    split at hallowed
    · next i revents active hround =>
      obtain ⟨c, hinHand⟩ := h.takeEvent hround
      obtain ⟨s', hs', hinv⟩ := hinHand.handleEvent revents readResult
      exact ⟨s', by simp only [TcpServer.step, hround]; exact hs', hinv⟩
    · cases hallowed
  | finishEvent l writeResult =>
    dsimp only [allowed] at hallowed
    split at hallowed
    · next i write active hround =>
      obtain ⟨s', hs', hinv⟩ := h.finishEvent hround writeResult
      exact ⟨s', by simp only [TcpServer.step, hround, hs'], hinv⟩
    · cases hallowed
  | swapFunctors l =>
    dsimp only [allowed] at hallowed
    split at hallowed
    · next hround => exact ⟨_, by simp only [TcpServer.step, hround], h.swapFunctors hround⟩
    · cases hallowed
  | runFunctor l =>
    dsimp only [allowed] at hallowed
    split at hallowed
    · next functor functors hround =>
      obtain ⟨s', hs', hinv⟩ := h.call hround
      exact ⟨s', by simp only [TcpServer.step, hround, hs'], hinv⟩
    · cases hallowed
  | endRound l =>
    dsimp only [allowed] at hallowed
    split at hallowed
    · next hround => exact ⟨_, by simp only [TcpServer.step, hround], h.endRound hround⟩
    · cases hallowed
  | send i buf result => exact h.send (of_decide_eq_true hallowed) buf result
  | shutdown i => exact h.shutdown (of_decide_eq_true hallowed)

/-- The protocol between the server's table, the loops and the connections. A connection is in the
table until it has been removed; what happens to it comes in one order, each step once, and its
`connectDestroyed` outside of the dispatch of events. -/
structure Protocol (s : TcpServer) : Prop where
  distinct : (s.conns.map Connection.name_).Nodup
  registered : ∀ (i : ℕ) (c : Connection), s.conns[i]? = some c →
    (s.connections_.lookup c.name_ = some i ↔ .removeConnectionInLoop ∉ c.log)
  noOthers : ∀ name i, s.connections_.lookup name = some i →
    ∃ c, s.conns[i]? = some c ∧ c.name_ = name
  order : ∀ c ∈ s.conns, c.log.filter (· ≠ .handleEvent) <+:
    [.connectEstablished, .handleClose, .removeConnectionInLoop, .connectDestroyed false]
  established : ∀ c ∈ s.conns,
    Every (fun earlier e ↦ e = .handleEvent → .connectEstablished ∈ earlier) c.log
  closed : ∀ c ∈ s.conns, .handleClose ∈ c.log ↔ .closing ∈ c.conn.trace
  downOnce : ∀ c ∈ s.conns, c.conn.trace.count (.connectionCallback false) ≤ 1

theorem Recorded.mem_log {connections_ : Map Bytes ℕ} (h : Recorded connections_ i stage c)
    (e : Milestone) (he : e ≠ .handleEvent) : e ∈ c.log ↔ e ∈ stage.past := by
  rw [← h.past, List.mem_filter, and_iff_left (decide_eq_true he)]

theorem Recorded.mem_trace {connections_ : Map Bytes ℕ} (h : Recorded connections_ i stage c)
    {e : Effect} (he : e.milestone = true) : e ∈ c.conn.trace ↔ e ∈ stage.milestones := by
  rw [← h.conn.milestones_eq, milestones, List.mem_filter, and_iff_left he]

theorem Inv.protocol (h : Inv s) : Protocol s := by
  have hpresent : ∀ c ∈ s.conns, ∃ i stage, s.conns[i]? = some c ∧
      Recorded s.connections_ i stage c := by
    intro c hc
    obtain ⟨i, hi, hfound⟩ := List.getElem_of_mem hc
    have hfound := List.getElem?_eq_some_iff.2 ⟨hi, hfound⟩
    obtain ⟨d, stage, hd, -, hrecorded⟩ := h.present hi
    obtain rfl := Option.some.inj (hfound.symm.trans hd)
    exact ⟨i, stage, hfound, hrecorded⟩
  refine ⟨?_, fun i c hfound ↦ ?_, h.sound.listed, fun c hc ↦ ?_, fun c hc ↦ ?_, fun c hc ↦ ?_,
    fun c hc ↦ ?_⟩
  · refine List.pairwise_iff_getElem.2 fun i j hi hj hlt heq ↦ ?_
    rw [List.length_map] at hi hj
    rw [List.getElem_map, List.getElem_map] at heq
    exact hlt.ne (h.sound.name_inj (List.getElem?_eq_getElem hi) (List.getElem?_eq_getElem hj) heq)
  · obtain ⟨d, stage, hd, -, hrecorded⟩ := h.present (List.getElem?_eq_some_iff.1 hfound).1
    obtain rfl := Option.some.inj (hfound.symm.trans hd)
    rw [hrecorded.listed, hrecorded.mem_log .removeConnectionInLoop (by decide)]
    cases stage with
    | absent => cases hrecorded.conn
    | establishing => simp [Stage.listed, Stage.past]
    | up => simp [Stage.listed, Stage.past]
    | removing => simp [Stage.listed, Stage.past]
    | destroying => simp [Stage.listed, Stage.past]
    | destroyed => simp [Stage.listed, Stage.past]
  · obtain ⟨i, stage, -, hrecorded⟩ := hpresent c hc
    rw [hrecorded.past]
    cases stage <;> decide
  · obtain ⟨i, stage, -, hrecorded⟩ := hpresent c hc
    exact hrecorded.events
  · obtain ⟨i, stage, -, hrecorded⟩ := hpresent c hc
    rw [hrecorded.mem_log .handleClose (by decide), hrecorded.mem_trace rfl]
    cases stage <;> decide
  · obtain ⟨i, stage, -, hrecorded⟩ := hpresent c hc
    have hcount : c.conn.trace.count (.connectionCallback false) =
        stage.milestones.count (.connectionCallback false) := by
      rw [← hrecorded.conn.milestones_eq, milestones, List.count_filter rfl]
    rw [hcount]
    cases stage <;> decide

theorem inv_start (listenAddr : InetAddress) (nameArg : Bytes) (writeCompleteCallback : Bool)
    (numThreads : ℕ) : Inv (start listenAddr nameArg writeCompleteCallback numThreads) where
  sound := by
    have hnext : (1 : ℤ) = wrap32 ((0 : ℕ) + 1) := (wrap32_eq_self (by decide) (by decide)).symm
    refine ⟨length_toIpPort listenAddr, Nat.two_pow_pos 31, hnext, fun i c hc ↦ ?_,
      fun name i hi ↦ ?_, fun _ ↦ List.nodup_nil⟩
    · cases hc
    · cases hi
  tracked i := .absent rfl ⟨fun _ ↦ rfl, fun _ hmem ↦ absurd hmem List.not_mem_nil, nofun⟩

/-- The protocol holds in every state of every run with fewer than `2 ^ 31` connections. -/
theorem protocol_of_run (listenAddr : InetAddress) (nameArg : Bytes) (writeCompleteCallback : Bool)
    (numThreads : ℕ) (actions : List Action)
    (h : Along step (fun s a ↦ s.allowed a = true)
      (start listenAddr nameArg writeCompleteCallback numThreads) actions) :
    ∀ before after, actions = before ++ after →
      ∃ s, run step (start listenAddr nameArg writeCompleteCallback numThreads) before = some s ∧
        Protocol s := by
  rintro before after rfl
  obtain ⟨s, hs, hinv⟩ := possible (fun _ _ hallowed h ↦ Inv.step hallowed h)
    (inv_start listenAddr nameArg writeCompleteCallback numThreads) h.of_append
  exact ⟨s, hs, hinv.protocol⟩

/-- A client connects and goes away while the other loops of the server are waiting. -/
theorem protocol_of_visit :
    ∃ s, run step (start ⟨(127, 0, 0, 1), 8080⟩ (lit "server") false 2)
        [.poll .baseLoop_ [.acceptChannel_], .accept true, .swapFunctors .baseLoop_,
          .endRound .baseLoop_, .poll (.loops_ 0) [], .swapFunctors (.loops_ 0),
          .runFunctor (.loops_ 0), .send 0 (lit "hello") (.accepted 2), .endRound (.loops_ 0),
          .poll (.loops_ 0) [.connection 0 ⟨false, false, true, true⟩],
          .handleEvent (.loops_ 0) (.read []), .poll .baseLoop_ [], .swapFunctors .baseLoop_,
          .runFunctor .baseLoop_, .finishEvent (.loops_ 0) (.accepted 3), .swapFunctors (.loops_ 0),
          .runFunctor (.loops_ 0), .endRound (.loops_ 0)] = some s ∧ Protocol s :=
  protocol_of_run ⟨(127, 0, 0, 1), 8080⟩ (lit "server") false 2 _ (by decide +kernel) _ []
    (List.append_nil _).symm

end CppAiService.TcpServer

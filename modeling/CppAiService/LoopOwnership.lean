import CppAiService.ConnectionRegistry
import Mathlib.Data.Int.CardIntervalMod

namespace CppAiService.TcpServer

open Bytes Foundation.Run

/-- The connections that a task works on; `removeConnectionInLoop` only knows their names. -/
def Functor.worksOn : Functor → Option ℕ
  | .connectEstablished conn | .connectDestroyed conn => some conn
  | .removeConnectionInLoop _ => none

def Round.held : Round → List ℕ
  | .poll => []
  | .dispatch active => active.filterMap ActiveChannel.conn?
  | .handling conn _ active => conn :: active.filterMap ActiveChannel.conn?
  | .execute functors => functors.filterMap Functor.worksOn

def Loop.held (loop : Loop) : List ℕ :=
  loop.round.held ++ loop.pendingFunctors_.filterMap Functor.worksOn

def turn (numThreads i : ℕ) : LoopId :=
  if numThreads = 0 then .baseLoop_ else .loops_ (i % numThreads)

/-- The thread that takes a step; users of a connection call it in its own loop. -/
def thread (s : TcpServer) : Action → Option LoopId
  | .poll l _ | .handleEvent l _ | .finishEvent l _ | .swapFunctors l | .runFunctor l
  | .endRound l => some l
  | .accept _ => some .baseLoop_
  | .send i _ _ | .shutdown i => s.conns[i]?.map Connection.loop_

def owners (s : TcpServer) : List LoopId := s.conns.map Connection.loop_

/-- Connections are given to the loops in turn, and a loop has only its own in its hands. -/
structure Owned (numThreads : ℕ) (s : TcpServer) : Prop where
  loops_ : s.loops_ = numThreads
  next_ : numThreads ≠ 0 → s.next_ = s.conns.length % numThreads
  owner : ∀ i c, s.conns[i]? = some c → c.loop_ = turn numThreads i
  held : ∀ l, ∀ i ∈ (s.loops l).held, s.owners[i]? = some l

def Touches (l : LoopId) (s s' : TcpServer) : Prop :=
  ∀ (i : ℕ) (c c' : Connection), s.conns[i]? = some c → s'.conns[i]? = some c' → c.loop_ ≠ l →
    c'.conn = c.conn

variable {numThreads i : ℕ} {s s' : TcpServer} {l : LoopId} {c : Connection}

theorem getElem?_of_prefix {α : Type} {xs ys : List α} (h : xs <+: ys) {a : α}
    (ha : xs[i]? = some a) : ys[i]? = some a := by
  obtain ⟨more, rfl⟩ := h
  rw [List.getElem?_append_left (List.getElem?_eq_some_iff.1 ha).1, ha]

theorem touches_of_conns (h : s'.conns = s.conns) : Touches l s s' := by
  intro i c c' hc hc' _
  rw [h] at hc'
  rw [Option.some.inj (hc.symm.trans hc')]

theorem owners_getElem? (h : s.conns[i]? = some c) : s.owners[i]? = some c.loop_ := by
  rw [owners, List.getElem?_map, h, Option.map_some]

theorem owners_setConn (h : s.conns[i]? = some c) {c' : Connection} (hloop : c'.loop_ = c.loop_) :
    (s.setConn i c').owners = s.owners := by
  rw [owners, owners, setConn, List.map_set, hloop]
  refine List.ext_getElem? fun j ↦ ?_
  rw [List.getElem?_set]
  split
  · next hij =>
    subst hij
    rw [List.getElem?_map, h]
    have hi := (List.getElem?_eq_some_iff.1 h).1
    rw [if_pos (by rwa [List.length_map]), Option.map_some]
  · rfl

theorem touches_setConn (h : s.conns[i]? = some c) {c' : Connection}
    (hc : c.loop_ = l ∨ c'.conn = c.conn) : Touches l s (s.setConn i c') := by
  intro j d d' hd hd' hne
  rw [setConn, List.getElem?_set] at hd'
  split at hd'
  · next hij =>
    subst hij
    obtain rfl := Option.some.inj (h.symm.trans hd)
    split at hd'
    · obtain rfl := Option.some.inj hd'
      exact hc.resolve_left hne
    · cases hd'
  · rw [Option.some.inj (hd.symm.trans hd')]

theorem Touches.trans {s'' : TcpServer} (h : Touches l s s') (h' : Touches l s' s'')
    (howners : s.owners <+: s'.owners) : Touches l s s'' := by
  intro i c c'' hc hc'' hne
  have howner := getElem?_of_prefix howners (owners_getElem? hc)
  rw [owners, List.getElem?_map] at howner
  obtain ⟨c', hc', hloop⟩ := Option.map_eq_some_iff.1 howner
  rw [h' i c' c'' hc' hc'' (by rwa [hloop]), h i c c' hc hc' hne]

theorem Owned.congr (h : Owned numThreads s) (hloops : s'.loops_ = s.loops_)
    (hnext : s'.next_ = s.next_) (howners : s'.owners = s.owners)
    (hheld : ∀ l, ∀ i ∈ (s'.loops l).held, s.owners[i]? = some l) : Owned numThreads s' where
  loops_ := hloops.trans h.loops_
  next_ hn := by
    have hlength := congrArg List.length howners
    rw [owners, owners, List.length_map, List.length_map] at hlength
    rw [hnext, hlength]
    exact h.next_ hn
  owner i c hc := by
    have hloop := owners_getElem? hc
    rw [howners, owners, List.getElem?_map] at hloop
    obtain ⟨d, hd, hloop⟩ := Option.map_eq_some_iff.1 hloop
    rw [← hloop]
    exact h.owner i d hd
  held l i hi := howners ▸ hheld l i hi

theorem Owned.setLoop (h : Owned numThreads s) {loop : Loop}
    (hheld : ∀ i ∈ loop.held, s.owners[i]? = some l) : Owned numThreads (s.setLoop l loop) := by
  refine h.congr rfl rfl rfl ?_
  exact forall_setLoop (P := fun l loop ↦ ∀ i ∈ loop.held, s.owners[i]? = some l) hheld
    fun l' _ ↦ h.held l'

theorem Owned.setRound (h : Owned numThreads s) {round : Round}
    (hheld : ∀ i ∈ round.held, s.owners[i]? = some l) : Owned numThreads (s.setRound l round) := by
  refine h.setLoop fun i hi ↦ ?_
  obtain hi | hi := List.mem_append.1 hi
  · exact hheld i hi
  · exact h.held l i (List.mem_append_right _ hi)

theorem Owned.queueInLoop (h : Owned numThreads s) {functor : Functor}
    (hown : ∀ i ∈ functor.worksOn, s.owners[i]? = some l) :
    Owned numThreads (s.queueInLoop l functor) := by
  refine h.setLoop fun i hi ↦ ?_
  rw [Loop.held, List.filterMap_append, ← List.append_assoc] at hi
  obtain hi | hi := List.mem_append.1 hi
  · exact h.held l i hi
  · obtain ⟨other, hmem, hi⟩ := List.mem_filterMap.1 hi
    rw [List.mem_singleton.1 hmem] at hi
    exact hown i hi

theorem Owned.setConn (h : Owned numThreads s) (hc : s.conns[i]? = some c) {c' : Connection}
    (hloop : c'.loop_ = c.loop_) : Owned numThreads (s.setConn i c') :=
  h.congr rfl rfl (owners_setConn hc hloop) h.held

structure Moves (numThreads : ℕ) (l : LoopId) (s s' : TcpServer) : Prop where
  owned : Owned numThreads s'
  owners : s.owners <+: s'.owners
  touches : Touches l s s'

theorem Moves.trans {s'' : TcpServer} (h : Moves numThreads l s s')
    (h' : Moves numThreads l s' s'') : Moves numThreads l s s'' :=
  ⟨h'.owned, h.owners.trans h'.owners, h.touches.trans h'.touches h.owners⟩

theorem Moves.of_conns (h : Owned numThreads s') (hconns : s'.conns = s.conns) :
    Moves numThreads l s s' := by
  refine ⟨h, ?_, touches_of_conns hconns⟩
  rw [TcpServer.owners, TcpServer.owners, hconns]

theorem Owned.moves_setConn (h : Owned numThreads s) (hfound : s.conns[i]? = some c)
    {c' : Connection} (hloop : c'.loop_ = c.loop_) (hc : c.loop_ = l ∨ c'.conn = c.conn) :
    Moves numThreads l s (s.setConn i c') :=
  ⟨h.setConn hfound hloop, (owners_setConn hfound hloop) ▸ List.prefix_rfl,
    touches_setConn hfound hc⟩

theorem Owned.moves_setRound (h : Owned numThreads s) {round : Round}
    (hheld : ∀ i ∈ round.held, s.owners[i]? = some l) :
    Moves numThreads l s (s.setRound l round) := .of_conns (h.setRound hheld) rfl

theorem loop_eq (hfound : s.conns[i]? = some c) (hown : s.owners[i]? = some l) : c.loop_ = l :=
  Option.some.inj ((owners_getElem? hfound).symm.trans hown)

theorem Owned.removeConnectionInLoop (h : Owned numThreads s) {thread : LoopId}
    (hs : s.removeConnectionInLoop i = some s') : Moves numThreads thread s s' := by
  obtain ⟨c, hfound, hs⟩ := Option.bind_eq_some_iff.1 hs
  obtain rfl := Option.some.inj hs
  let c' : Connection := { c with log := c.log ++ [.removeConnectionInLoop] }
  have hset : Moves numThreads thread s (s.setConn i c') := h.moves_setConn hfound rfl (.inr rfl)
  have herased : Owned numThreads
      { s.setConn i c' with connections_ := s.connections_.erase c.name_ } :=
    hset.owned.congr rfl rfl rfl hset.owned.held
  have howner : (s.setConn i c').owners[i]? = some c.loop_ :=
    getElem?_of_prefix hset.owners (owners_getElem? hfound)
  refine hset.trans (.of_conns (herased.queueInLoop fun j hj ↦ ?_) rfl)
  obtain rfl := Option.some.inj hj
  exact howner

theorem Owned.call (h : Owned numThreads s) {functor : Functor}
    (hown : ∀ i ∈ functor.worksOn, s.owners[i]? = some l) (hs : s.call functor = some s') :
    Moves numThreads l s s' := by
  cases functor with
  | connectEstablished i =>
    obtain ⟨c, hfound, hs⟩ := Option.bind_eq_some_iff.1 hs
    obtain ⟨conn, -, hs⟩ := Option.bind_eq_some_iff.1 hs
    obtain rfl := Option.some.inj hs
    exact h.moves_setConn hfound rfl (.inl (loop_eq hfound (hown i rfl)))
  | removeConnectionInLoop i => exact h.removeConnectionInLoop hs
  | connectDestroyed i =>
    obtain ⟨c, hfound, hs⟩ := Option.bind_eq_some_iff.1 hs
    obtain ⟨conn, -, hs⟩ := Option.bind_eq_some_iff.1 hs
    obtain rfl := Option.some.inj hs
    exact h.moves_setConn hfound rfl (.inl (loop_eq hfound (hown i rfl)))

/-- A task is carried out by the thread of its loop, or handed over to it. -/
theorem Owned.runInLoop (h : Owned numThreads s) {thread : LoopId} {functor : Functor}
    (hown : ∀ i ∈ functor.worksOn, s.owners[i]? = some l)
    (hs : s.runInLoop thread l functor = some s') : Moves numThreads thread s s' := by
  rw [TcpServer.runInLoop] at hs
  split at hs
  · next heq => exact h.call (heq ▸ hown) hs
  · obtain rfl := Option.some.inj hs
    exact .of_conns (h.queueInLoop hown) rfl

theorem Owned.removeConnection (h : Owned numThreads s) {thread : LoopId}
    (hs : s.removeConnection thread i = some s') : Moves numThreads thread s s' := by
  refine h.runInLoop (fun j hj ↦ ?_) hs
  cases hj

theorem succ_mod_eq (i : ℕ) {n : ℕ} (hn : n ≠ 0) :
    (if n ≤ i % n + 1 then 0 else i % n + 1) = (i + 1) % n := by
  have hlt := Nat.mod_lt i (Nat.pos_of_ne_zero hn)
  rw [← Nat.mod_add_mod]
  split
  · next hle => rw [show i % n + 1 = n by omega, Nat.mod_self]
  · next hle => exact (Nat.mod_eq_of_lt (by omega)).symm

theorem getNextLoop_turn (h : Owned numThreads s) : ∃ next,
    s.getNextLoop = (turn numThreads s.conns.length, { s with next_ := next }) ∧
      (numThreads ≠ 0 → next = (s.conns.length + 1) % numThreads) := by
  obtain rfl := h.loops_
  rw [getNextLoop, turn]
  by_cases hn : s.loops_ = 0
  · rw [if_pos hn, if_pos hn]
    exact ⟨s.next_, rfl, fun hne ↦ absurd hn hne⟩
  · rw [if_neg hn, if_neg hn, h.next_ hn]
    exact ⟨_, rfl, fun _ ↦ succ_mod_eq s.conns.length hn⟩

theorem Owned.enter (h : Owned numThreads s) {next : ℕ} {conn : Connection}
    (hnext : numThreads ≠ 0 → next = (s.conns.length + 1) % numThreads)
    (hloop : conn.loop_ = turn numThreads s.conns.length) :
    Moves numThreads l s (s.enter next conn) := by
  have hprefix : s.owners <+: (s.enter next conn).owners := by
    rw [owners, owners, TcpServer.enter, List.map_append]
    exact List.prefix_append ..
  refine ⟨⟨h.loops_, fun hn ↦ ?_, fun i c hc ↦ ?_, fun l i hi ↦ ?_⟩, hprefix, ?_⟩
  · rw [TcpServer.enter, List.length_append]
    exact hnext hn
  · by_cases hi : i = s.conns.length
    · subst hi
      obtain rfl := Option.some.inj ((getElem?_enter s next conn).symm.trans hc)
      exact hloop
    · rw [getElem?_enter_of_ne next conn hi] at hc
      exact h.owner i c hc
  · exact getElem?_of_prefix hprefix (h.held l i hi)
  · intro i c c' hc hc' _
    have hi : i ≠ s.conns.length := (List.getElem?_eq_some_iff.1 hc).1.ne
    rw [getElem?_enter_of_ne next conn hi] at hc'
    rw [Option.some.inj (hc.symm.trans hc')]

theorem Owned.newConnection (h : Owned numThreads s) (hs : s.newConnection = some s') :
    Moves numThreads .baseLoop_ s s' := by
  obtain ⟨next, hgetNext, hnext⟩ := getNextLoop_turn h
  let conn : Connection := {
    name_ := connName s.name_ s.ipPort_ s.nextConnId_
    loop_ := turn numThreads s.conns.length
    conn := .create s.writeCompleteCallback_ false (64 * 1024 * 1024)
    log := [] }
  rw [TcpServer.newConnection, hgetNext] at hs
  have hentered : Moves numThreads .baseLoop_ s (s.enter next conn) := h.enter hnext rfl
  have hs : (s.enter next conn).runInLoop .baseLoop_ conn.loop_
      (.connectEstablished s.conns.length) = some s' := hs
  refine hentered.trans (hentered.owned.runInLoop (fun i hi ↦ ?_) hs)
  obtain rfl := Option.some.inj hi
  exact owners_getElem? (getElem?_enter s next conn)

theorem Owned.handleEvent (h : Owned numThreads s) (hown : s.owners[i]? = some l)
    {revents : Revents} {readResult : ReadResult}
    (hs : s.handleEvent l i revents readResult = some s') : Moves numThreads l s s' := by
  obtain ⟨c, hfound, hs⟩ := Option.bind_eq_some_iff.1 hs
  obtain ⟨conn, -, hs⟩ := Option.bind_eq_some_iff.1 hs
  have hloop := loop_eq hfound hown
  split at hs
  · let c' : Connection := { c with conn := conn, log := c.log ++ [.handleEvent, .handleClose] }
    have hset : Moves numThreads l s (s.setConn i c') := h.moves_setConn hfound rfl (.inl hloop)
    exact hset.trans (hset.owned.removeConnection hs)
  · obtain rfl := Option.some.inj hs
    exact h.moves_setConn hfound rfl (.inl hloop)

theorem Owned.finishEvent (h : Owned numThreads s) (hown : s.owners[i]? = some l) {write : Bool}
    {writeResult : WriteResult} (hs : s.finishEvent i write writeResult = some s') :
    Moves numThreads l s s' := by
  obtain ⟨c, hfound, hs⟩ := Option.bind_eq_some_iff.1 hs
  obtain ⟨conn, -, hs⟩ := Option.bind_eq_some_iff.1 hs
  obtain rfl := Option.some.inj hs
  exact h.moves_setConn hfound rfl (.inl (loop_eq hfound hown))

/-- Taking the front of what a loop has in its hands leaves it the rest. -/
theorem Owned.shorten (h : Owned numThreads s) {round : Round}
    (hround : ∀ i ∈ round.held, i ∈ (s.loops l).round.held) :
    Moves numThreads l s (s.setRound l round) :=
  h.moves_setRound fun i hi ↦ h.held l i (List.mem_append_left _ (hround i hi))

theorem Owned.step (h : Owned numThreads s) {a : Action} (hs : s.step a = some s') :
    ∃ l, s.thread a = some l ∧ Moves numThreads l s s' := by
  cases a with
  | poll l active =>
    refine ⟨l, rfl, ?_⟩
    rw [TcpServer.step] at hs
    split at hs
    · split at hs
      · next hreported =>
        obtain rfl := Option.some.inj hs
        refine h.moves_setRound fun i hi ↦ ?_
        obtain ⟨channel, hchannel, hi⟩ := List.mem_filterMap.1 hi
        have hall := List.all_eq_true.1 (Bool.and_eq_true_iff.1 hreported).2 channel hchannel
        cases channel with
        | acceptChannel_ => cases hi
        | connection conn revents =>
          obtain rfl := Option.some.inj hi
          obtain ⟨c, hfound, hc⟩ := (Option.any_eq_true _ _).1 hall
          rw [owners_getElem? hfound, of_decide_eq_true (Bool.and_eq_true_iff.1 hc).1]
      · cases hs
    · cases hs
  | accept accepted =>
    refine ⟨.baseLoop_, rfl, ?_⟩
    rw [TcpServer.step] at hs
    split at hs
    · next active hround =>
      have hround : Moves numThreads .baseLoop_ s (s.setRound .baseLoop_ (.dispatch active)) :=
        h.shorten fun i hi ↦ by
          rw [hround]
          exact hi
      dsimp only at hs
      split at hs
      · exact hround.trans (hround.owned.newConnection hs)
      · obtain rfl := Option.some.inj hs
        exact hround
    · cases hs
  | handleEvent l readResult =>
    refine ⟨l, rfl, ?_⟩
    rw [TcpServer.step] at hs
    split at hs
    · next i revents active hround =>
      have hheld : s.owners[i]? = some l := h.held l i (List.mem_append_left _ (by
        rw [hround]
        exact List.mem_cons_self))
      have hround : Moves numThreads l s (s.setRound l (.handling i revents.write active)) :=
        h.shorten fun j hj ↦ by
          rw [hround]
          exact hj
      exact hround.trans (hround.owned.handleEvent hheld hs)
    · cases hs
  | finishEvent l writeResult =>
    refine ⟨l, rfl, ?_⟩
    rw [TcpServer.step] at hs
    split at hs
    · next i write active hround =>
      have hheld : s.owners[i]? = some l := h.held l i (List.mem_append_left _ (by
        rw [hround]
        exact List.mem_cons_self))
      have hround : Moves numThreads l s (s.setRound l (.dispatch active)) :=
        h.shorten fun j hj ↦ by
          rw [hround]
          exact List.mem_cons_of_mem _ hj
      exact hround.trans (hround.owned.finishEvent hheld hs)
    · cases hs
  | swapFunctors l =>
    refine ⟨l, rfl, ?_⟩
    rw [TcpServer.step] at hs
    split at hs
    · obtain rfl := Option.some.inj hs
      refine .of_conns (h.setLoop fun i hi ↦ h.held l i (List.mem_append_right _ ?_)) rfl
      rw [Loop.held, List.filterMap_nil, List.append_nil] at hi
      exact hi
    · cases hs
  | runFunctor l =>
    refine ⟨l, rfl, ?_⟩
    rw [TcpServer.step] at hs
    split at hs
    · next functor functors hround =>
      have hheld : ∀ i ∈ functor.worksOn, s.owners[i]? = some l := fun i hi ↦
        h.held l i (List.mem_append_left _ (by
          rw [hround]
          exact List.mem_filterMap.2 ⟨functor, List.mem_cons_self, hi⟩))
      have hround : Moves numThreads l s (s.setRound l (.execute functors)) :=
        h.shorten fun i hi ↦ by
          rw [hround]
          obtain ⟨other, hmem, hi⟩ := List.mem_filterMap.1 hi
          exact List.mem_filterMap.2 ⟨other, List.mem_cons_of_mem _ hmem, hi⟩
      exact hround.trans (hround.owned.call hheld hs)
    · cases hs
  | endRound l =>
    refine ⟨l, rfl, ?_⟩
    rw [TcpServer.step] at hs
    split at hs
    · obtain rfl := Option.some.inj hs
      exact h.shorten fun i hi ↦ absurd hi List.not_mem_nil
    · cases hs
  | send i buf result =>
    obtain ⟨c, hfound, hs⟩ := Option.bind_eq_some_iff.1 hs
    obtain ⟨conn, -, hs⟩ := Option.bind_eq_some_iff.1 hs
    obtain rfl := Option.some.inj hs
    exact ⟨c.loop_, by rw [thread, hfound, Option.map_some], h.moves_setConn hfound rfl (.inl rfl)⟩
  | shutdown i =>
    obtain ⟨c, hfound, hs⟩ := Option.bind_eq_some_iff.1 hs
    obtain rfl := Option.some.inj hs
    exact ⟨c.loop_, by rw [thread, hfound, Option.map_some], h.moves_setConn hfound rfl (.inl rfl)⟩

theorem owned_start (listenAddr : InetAddress) (nameArg : Bytes) (writeCompleteCallback : Bool)
    (numThreads : ℕ) :
    Owned numThreads (start listenAddr nameArg writeCompleteCallback numThreads) where
  loops_ := rfl
  next_ _ := (Nat.zero_mod _).symm
  owner i c hc := by
    have hnone : (start listenAddr nameArg writeCompleteCallback numThreads).conns = [] := rfl
    rw [hnone, List.getElem?_nil] at hc
    cases hc
  held _ _ hi := absurd hi List.not_mem_nil

theorem owners_eq (h : Owned numThreads s) :
    s.owners = (List.range s.conns.length).map (turn numThreads) := by
  refine List.ext_getElem (by rw [owners, List.length_map, List.length_map, List.length_range]) ?_
  intro i hi _
  rw [owners, List.length_map] at hi
  simp only [owners, List.getElem_map, List.getElem_range]
  exact h.owner i _ (List.getElem?_eq_getElem hi)

theorem turn_eq_iff {n k : ℕ} (hk : k < n) (i : ℕ) : turn n i = .loops_ k ↔ i ≡ k [MOD n] := by
  rw [turn, if_neg (Nat.ne_zero_of_lt hk), LoopId.loops_.injEq, Nat.ModEq, Nat.mod_eq_of_lt hk]

theorem count_turn {n k : ℕ} (hk : k < n) (len : ℕ) :
    ((List.range len).map (turn n)).count (.loops_ k) =
      len / n + if k < len % n then 1 else 0 := by
  have hcount : ((List.range len).map (turn n)).count (.loops_ k) =
      Nat.count (· ≡ k [MOD n]) len := by
    induction len with
    | zero => rfl
    | succ len ih =>
      rw [List.range_succ, List.map_append, List.count_append, ih, Nat.count_succ, List.map_singleton,
        List.count_singleton]
      congr 1
      by_cases hlen : len ≡ k [MOD n]
      · rw [if_pos hlen, if_pos (by rw [(turn_eq_iff hk len).2 hlen]; exact beq_self_eq_true _)]
      · rw [if_neg hlen, if_neg (by rw [beq_iff_eq, turn_eq_iff hk]; exact hlen)]
  rw [hcount, Nat.count_modEq_card len (Nat.zero_lt_of_lt hk), Nat.mod_eq_of_lt hk]

/-- One loop per connection: connections go to the loops in turn, so that no loop has been given two
more than another, and whatever the threads do, only the thread of its loop ever touches a
connection. -/
theorem one_loop_per_connection (listenAddr : InetAddress) (nameArg : Bytes)
    (writeCompleteCallback : Bool) (numThreads : ℕ) (actions : List Action) {s : TcpServer}
    (hrun : run step (start listenAddr nameArg writeCompleteCallback numThreads) actions =
      some s) :
    (∀ i c, s.conns[i]? = some c → c.loop_ = turn numThreads i) ∧
    (∀ k < numThreads, s.owners.count (.loops_ k) =
      s.conns.length / numThreads + if k < s.conns.length % numThreads then 1 else 0) ∧
    ∀ a s', s.step a = some s' → ∃ l, s.thread a = some l ∧ Touches l s s' := by
  have hstep : ∀ (s : TcpServer) (a : Action) (s' : TcpServer), Owned numThreads s →
      s.step a = some s' → Owned numThreads s' := by
    intro s a s' h hs
    obtain ⟨l, -, hmoves⟩ := h.step hs
    exact hmoves.owned
  have howned := run_inv hstep (owned_start ..) hrun
  refine ⟨howned.owner, fun k hk ↦ ?_, fun a s' hs ↦ ?_⟩
  · rw [owners_eq howned]
    exact count_turn hk _
  · obtain ⟨l, hthread, hmoves⟩ := howned.step hs
    exact ⟨l, hthread, hmoves.touches⟩

def threeClients : List Action :=
  [.poll .baseLoop_ [.acceptChannel_], .accept true, .swapFunctors .baseLoop_, .endRound .baseLoop_,
    .poll .baseLoop_ [.acceptChannel_], .accept true, .poll (.loops_ 0) [],
    .swapFunctors (.loops_ 0), .runFunctor (.loops_ 0), .swapFunctors .baseLoop_,
    .endRound .baseLoop_, .poll .baseLoop_ [.acceptChannel_], .accept true]

theorem three_clients_placed :
    ∃ s, run step (start ⟨(127, 0, 0, 1), 8080⟩ (lit "server") false 2) threeClients = some s ∧
      (∀ i c, s.conns[i]? = some c → c.loop_ = turn 2 i) ∧
      (∀ k < 2, s.owners.count (.loops_ k) =
        s.conns.length / 2 + if k < s.conns.length % 2 then 1 else 0) ∧
      ∀ a s', s.step a = some s' → ∃ l, s.thread a = some l ∧ Touches l s s' := by
  have hsome : (run step (start ⟨(127, 0, 0, 1), 8080⟩ (lit "server") false 2)
      threeClients).isSome = true := by decide +kernel
  obtain ⟨s, hrun⟩ := Option.isSome_iff_exists.1 hsome
  exact ⟨s, hrun, one_loop_per_connection ⟨(127, 0, 0, 1), 8080⟩ (lit "server") false 2 _ hrun⟩

end CppAiService.TcpServer

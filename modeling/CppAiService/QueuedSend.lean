import CppAiService.CrossThread
import CppAiService.OutputStream

namespace CppAiService.CrossThread

open Foundation.Run TcpConnection

variable {w t : World} {memory : ℕ → Option Text} {address : ℕ} {text : Option Text}

def Holds (sent : Bytes) (len : ℕ) : Option Text → Prop
  | none => False
  | some text => len ≤ text.block.length ∧ text.block.take len = sent

instance (sent : Bytes) (len : ℕ) : DecidablePred (Holds sent len)
  | none => inferInstanceAs (Decidable False)
  | some _ => inferInstanceAs (Decidable (_ ∧ _))

/-- Executed now, the task would hand over what was sent. -/
def Functor.Intact (memory : ℕ → Option Text) : Functor → Prop
  | .sendInLoop data len sent => Holds sent len (memory data)
  | .shutdownInLoop | .connectDestroyed => True

def Call.Intact (memory : ℕ → Option Text) : Call → Prop
  | .send buf sent => (memory buf).map Text.contents = some sent
  | .shutdownTested | .shutdownSet => True

def Functor.Spared (address : ℕ) (text : Option Text) : Functor → Prop
  | .sendInLoop data len sent => data = address → Holds sent len text
  | .shutdownInLoop | .connectDestroyed => True

instance (address : ℕ) (text : Option Text) : DecidablePred (Functor.Spared address text)
  | .sendInLoop data len sent => inferInstanceAs (Decidable (data = address → Holds sent len text))
  | .shutdownInLoop | .connectDestroyed => inferInstanceAs (Decidable True)

/-- The caller leaves the bytes of a string alone, and the string alive, as long as a task that
was queued for it has not been executed. -/
def Spared (w : World) : Action → Prop
  | .store address text =>
    ∀ functor ∈ w.functors ++ w.pendingFunctors_, functor.Spared address (some text)
  | .release address => ∀ functor ∈ w.functors ++ w.pendingFunctors_, functor.Spared address none
  | _ => True

instance (w : World) : DecidablePred (Spared w)
  | .store address text => inferInstanceAs (Decidable
      (∀ functor ∈ w.functors ++ w.pendingFunctors_, functor.Spared address (some text)))
  | .release address => inferInstanceAs (Decidable
      (∀ functor ∈ w.functors ++ w.pendingFunctors_, functor.Spared address none))
  | .callSend _ | .callShutdown | .continueCall _ | .queueDestroyed | .swapFunctors
  | .runFunctor _ | .event .. => inferInstanceAs (Decidable True)

/-- Whatever was handed to `sendInLoop` is what was sent, and so will be whatever is queued. The
task whose turn it is writes just that, or keeps it for later, while its connection is up. -/
structure Delivers (w : World) : Prop where
  handed : ∀ e ∈ w.handed, e.2 = e.1
  queued : ∀ functor ∈ w.functors ++ w.pendingFunctors_, functor.Intact w.memory
  flows : ∀ data len sent rest, w.functors = .sendInLoop data len sent :: rest → w.conn.Ready →
    ∀ result t, result ≠ .peerGone → w.runFunctor result = some t → Flows w.conn t.conn sent

structure Carrying (w : World) : Prop where
  handed : ∀ e ∈ w.handed, e.2 = e.1
  queued : ∀ functor ∈ w.functors ++ w.pendingFunctors_, functor.Intact w.memory
  calls : ∀ call ∈ w.calls, call.Intact w.memory

theorem Carrying.delivers (h : Carrying w) : Delivers w where
  handed := h.handed
  queued := h.queued
  flows := by
    intro data len sent rest hfunctors hready result t hresult ht
    have hintact : Functor.Intact w.memory (.sendInLoop data len sent) :=
      h.queued _ (hfunctors ▸ List.mem_append_left _ List.mem_cons_self)
    rw [World.runFunctor, hfunctors] at ht
    obtain ⟨text, htext, ht⟩ := Option.bind_eq_some_iff.1 ht
    rw [Functor.Intact, htext] at hintact
    obtain ⟨hlen, hsent⟩ := hintact
    rw [if_pos hlen, hsent] at ht
    obtain ⟨d, hd, ht⟩ := Option.bind_eq_some_iff.1 ht
    obtain rfl := Option.some.inj ht
    obtain ⟨d', hd', hflows⟩ := sendInLoop_flows hready sent hresult
    obtain rfl := Option.some.inj (hd'.symm.trans hd)
    exact hflows

theorem Functor.intact_update_iff (functor : Functor) (h : functor.Intact memory) :
    functor.Intact (Function.update memory address text) ↔ functor.Spared address text := by
  cases functor with
  | sendInLoop data len sent =>
    simp only [Intact, Spared] at h ⊢
    by_cases hdata : data = address
    · subst hdata
      rw [Function.update_self]
      exact ⟨fun hheld _ ↦ hheld, fun hheld ↦ hheld rfl⟩
    · rw [Function.update_of_ne hdata]
      exact iff_of_true h fun heq ↦ absurd heq hdata
  | shutdownInLoop => exact Iff.rfl
  | connectDestroyed => exact Iff.rfl

theorem Call.intact_update {call : Call} (h : call.Intact memory) (hfree : ¬ call.Uses address) :
    call.Intact (Function.update memory address text) := by
  cases call with
  | send buf sent =>
    rw [Intact, Function.update_of_ne hfree]
    exact h
  | shutdownTested => trivial
  | shutdownSet => trivial

theorem Carrying.setMemory (h : Carrying w) (ht : w.setMemory address text = some t) :
    ((∀ functor ∈ w.functors ++ w.pendingFunctors_, functor.Spared address text) →
      Carrying t) ∧
    (Delivers t → ∀ functor ∈ w.functors ++ w.pendingFunctors_, functor.Spared address text) := by
  rw [World.setMemory] at ht
  split at ht
  · cases ht
  · next hfree =>
    obtain rfl := Option.some.inj ht
    refine ⟨fun hspared ↦ ⟨h.handed, fun functor hf ↦ ?_, fun call hcall ↦ ?_⟩,
      fun hdelivers functor hf ↦ ?_⟩
    · exact (functor.intact_update_iff (h.queued functor hf)).2 (hspared functor hf)
    · exact Call.intact_update (h.calls call hcall) fun huses ↦ hfree ⟨call, hcall, huses⟩
    · exact (functor.intact_update_iff (h.queued functor hf)).1 (hdelivers.queued functor hf)

theorem Carrying.queue (h : Carrying w) {functor : Functor} (hf : functor.Intact w.memory) :
    Carrying (w.queue functor) := by
  refine ⟨h.handed, fun f hmem ↦ ?_, h.calls⟩
  change f ∈ w.functors ++ (w.pendingFunctors_ ++ [functor]) at hmem
  rw [← List.append_assoc, List.mem_append, List.mem_singleton] at hmem
  obtain hmem | rfl := hmem
  · exact h.queued f hmem
  · exact hf

theorem Carrying.call (h : Carrying w) {call : Call} (hcall : call.Intact w.memory) :
    Carrying { w with calls := w.calls ++ [call] } := by
  refine ⟨h.handed, h.queued, fun c hmem ↦ ?_⟩
  obtain hmem | hmem := List.mem_append.1 hmem
  · exact h.calls c hmem
  · exact List.mem_singleton.1 hmem ▸ hcall

theorem Carrying.continueCall (h : Carrying w) {i : ℕ} (ht : w.continueCall i = some t) :
    Carrying t := by
  have herase : Carrying { w with calls := w.calls.eraseIdx i } :=
    ⟨h.handed, h.queued, fun call hcall ↦ h.calls call (List.mem_of_mem_eraseIdx hcall)⟩
  rw [World.continueCall] at ht
  split at ht
  · cases ht
  · next buf sent hcall =>
    obtain ⟨text, htext, rfl⟩ := Option.map_eq_some_iff.1 ht
    have hintact := h.calls _ (List.mem_of_getElem? hcall)
    rw [Call.Intact, htext, Option.map_some, Option.some.injEq] at hintact
    refine herase.queue ?_
    change Holds sent text.size (w.memory buf)
    rw [htext]
    exact ⟨text.size_le, hintact⟩
  · obtain rfl := Option.some.inj ht
    refine ⟨h.handed, h.queued, fun call hcall ↦ ?_⟩
    obtain hcall | rfl := List.mem_or_eq_of_mem_set hcall
    · exact h.calls call hcall
    · trivial
  · obtain rfl := Option.some.inj ht
    exact herase.queue trivial

theorem Carrying.runFunctor (h : Carrying w) {result : WriteResult}
    (ht : w.runFunctor result = some t) : Carrying t := by
  have hqueued : ∀ {functor rest}, w.functors = functor :: rest →
      functor.Intact w.memory ∧ ∀ f ∈ rest ++ w.pendingFunctors_, f.Intact w.memory := by
    intro functor rest hfunctors
    have hall := h.queued
    rw [hfunctors] at hall
    exact List.forall_mem_cons.1 hall
  rw [World.runFunctor] at ht
  split at ht
  · cases ht
  · next data len sent rest hfunctors =>
    obtain ⟨hintact, hrest⟩ := hqueued hfunctors
    obtain ⟨text, htext, ht⟩ := Option.bind_eq_some_iff.1 ht
    rw [Functor.Intact, htext] at hintact
    split at ht
    · obtain ⟨d, -, ht⟩ := Option.bind_eq_some_iff.1 ht
      obtain rfl := Option.some.inj ht
      refine ⟨fun e he ↦ ?_, hrest, h.calls⟩
      obtain he | he := List.mem_append.1 he
      · exact h.handed e he
      · obtain rfl := List.mem_singleton.1 he
        exact hintact.2
    · cases ht
  · next rest hfunctors =>
    obtain rfl := Option.some.inj ht
    exact ⟨h.handed, (hqueued hfunctors).2, h.calls⟩
  · next rest hfunctors =>
    obtain ⟨d, -, rfl⟩ := Option.map_eq_some_iff.1 ht
    exact ⟨h.handed, (hqueued hfunctors).2, h.calls⟩

theorem Carrying.step (h : Carrying w) {a : Action} (ht : w.step a = some t) :
    (Spared w a → Carrying t) ∧ (Delivers t → Spared w a) := by
  cases a with
  | store address text => exact h.setMemory ht
  | release address => exact h.setMemory ht
  | callSend address =>
    obtain ⟨text, htext, rfl⟩ := Option.map_eq_some_iff.1 ht
    refine ⟨fun _ ↦ ?_, fun _ ↦ trivial⟩
    split
    · exact h.call (by rw [Call.Intact, htext, Option.map_some])
    · exact h
  | callShutdown =>
    obtain rfl := Option.some.inj ht
    refine ⟨fun _ ↦ ?_, fun _ ↦ trivial⟩
    split
    · exact h.call trivial
    · exact h
  | continueCall i => exact ⟨fun _ ↦ h.continueCall ht, fun _ ↦ trivial⟩
  | queueDestroyed =>
    obtain rfl := Option.some.inj ht
    exact ⟨fun _ ↦ h.queue trivial, fun _ ↦ trivial⟩
  | swapFunctors =>
    refine ⟨fun _ ↦ ?_, fun _ ↦ trivial⟩
    rw [World.step] at ht
    split at ht
    · obtain rfl := Option.some.inj ht
      refine ⟨h.handed, fun functor hf ↦ ?_, h.calls⟩
      rw [List.append_nil] at hf
      exact h.queued functor (List.mem_append_right _ hf)
    · cases ht
  | runFunctor result => exact ⟨fun _ ↦ h.runFunctor ht, fun _ ↦ trivial⟩
  | event revents readResult calls writeResult =>
    refine ⟨fun _ ↦ ?_, fun _ ↦ trivial⟩
    rw [World.step] at ht
    split at ht
    · obtain ⟨d, -, rfl⟩ := Option.map_eq_some_iff.1 ht
      exact ⟨h.handed, h.queued, h.calls⟩
    · cases ht

theorem carrying_start (conn : TcpConnection) (memory : ℕ → Option Text) :
    Carrying (start conn memory) where
  handed _ he := absurd he List.not_mem_nil
  queued _ hf := absurd hf List.not_mem_nil
  calls _ hcall := absurd hcall List.not_mem_nil

/-- Queued sends deliver what was sent, however the run goes on, exactly if the callers leave
their strings alone until the tasks have been executed. -/
theorem queued_sends_iff (conn : TcpConnection) (memory : ℕ → Option Text) (actions : List Action)
    (h : run World.step (start conn memory) actions = some t) :
    (∀ before after, actions = before ++ after →
      ∃ u, run World.step (start conn memory) before = some u ∧ Delivers u) ↔
      Along World.step Spared (start conn memory) actions := by
  have hstep : ∀ (w : World) (a : Action), (∃ t, w.step a = some t) → Carrying w →
      ∃ t, w.step a = some t ∧ (Spared w a → Carrying t) ∧ (Delivers t → Spared w a) := by
    intro w a hpossible hw
    obtain ⟨t, ht⟩ := hpossible
    exact ⟨t, ht, hw.step ht⟩
  exact prefixes_iff (fun w hw ↦ hw.delivers) hstep (carrying_start conn memory)
    (along_of_run h)

theorem late_release_delivered :
    let s := start (established false false 0) callerMemory
    ∀ before after, [.callSend 0, .continueCall 0, .swapFunctors, .runFunctor (.accepted 9),
        .release 0] = before ++ after →
      ∃ u, run World.step s before = some u ∧ Delivers u :=
  (queued_sends_iff _ _ _ rfl).2 (by decide +kernel)

/-- The string is written over, in place, between the call and the task. -/
theorem reused_string_garbled :
    ∃ t, run World.step (start (established false false 0) callerMemory)
        [.callSend 0, .continueCall 0, .store 0 ⟨lit "world", 5, by decide⟩, .swapFunctors,
          .runFunctor (.accepted 9)] = some t ∧
      t.handed = [(lit "hello", lit "world")] ∧ written t.conn.trace = lit "world" :=
  ⟨_, rfl, rfl, rfl⟩

end CppAiService.CrossThread

import FpgaRadar.Vhdl.ClockedProcess

/-!
# Accesses through a bus port

A master performs a sequence of accesses.  Each of them is presented to the component at one or
more consecutive edges, and between two of them the port may be idle for any number of edges.
When presenting an access again does nothing, a run has the effects of the accesses, in their
order, and of nothing else.
-/

namespace Vhdl

/-- What the inputs of a clocked process ask of it. -/
structure Port {σ ι : Type*} (process : ClockedProcess σ ι) (α : Type*) where
  /-- The input presents the access. -/
  Presents : ι → α → Prop
  /-- The input presents no access. -/
  Idle : ι → Prop
  /-- The effect of an access on the registers. -/
  effect : α → σ → σ
  /-- The clocked branch performs the access. -/
  clocked_of_presents : ∀ {input access}, Presents input access → ∀ registers,
    process.clocked input registers = effect access registers
  /-- The clocked branch does nothing without an access. -/
  clocked_of_idle : ∀ {input}, Idle input → ∀ registers,
    process.clocked input registers = registers
  /-- An access presented twice is performed once. -/
  effect_effect : ∀ access registers,
    effect access (effect access registers) = effect access registers

namespace Port

variable {σ ι α κ β : Type*} {process : ClockedProcess σ ι} (port : Port process α)

/-- The inputs carry the accesses, each at one or more consecutive edges, with idle edges before,
between and after them. -/
inductive Carries : List ι → List α → Prop
  | done : Carries [] []
  | idle {input : ι} {inputs : List ι} {accesses : List α} :
      port.Idle input → Carries inputs accesses → Carries (input :: inputs) accesses
  | access {access : α} {burst inputs : List ι} {accesses : List α} :
      burst ≠ [] → (∀ input ∈ burst, port.Presents input access) → Carries inputs accesses →
      Carries (burst ++ inputs) (access :: accesses)

/-- The inputs at the first `n` edges. -/
def inputs (wave : ℕ → Period ι) (n : ℕ) : List ι :=
  (List.range n).map fun t => (wave t).input

variable {inputs burst : List ι} {accesses : List α} {access : α} {wave : ℕ → Period ι} {n : ℕ}

theorem foldl_of_presents (presented : ∀ input ∈ burst, port.Presents input access)
    (registers : σ) :
    burst.foldl (fun current input => process.clocked input current)
        (port.effect access registers) =
      port.effect access registers := by
  induction burst with
  | nil => rfl
  | cons input burst induction =>
      rw [List.foldl_cons, port.clocked_of_presents (presented input List.mem_cons_self),
        port.effect_effect]
      exact induction fun later mem => presented later (List.mem_cons_of_mem input mem)

/-- However long each access is presented, the inputs have the effects of the accesses. -/
theorem foldl_of_carries (carries : port.Carries inputs accesses) (registers : σ) :
    inputs.foldl (fun current input => process.clocked input current) registers =
      accesses.foldl (fun current access => port.effect access current) registers := by
  induction carries generalizing registers with
  | done => rfl
  | idle idle _ induction => rw [List.foldl_cons, port.clocked_of_idle idle, induction]
  | @access access burst inputs accesses nonempty presented _ induction =>
      obtain ⟨input, rest, rfl⟩ := List.exists_cons_of_ne_nil nonempty
      rw [List.foldl_append, List.foldl_cons, List.foldl_cons,
        port.clocked_of_presents (presented input List.mem_cons_self),
        port.foldl_of_presents fun later mem => presented later (List.mem_cons_of_mem input mem),
        induction]

/-- Without a reset a run feeds its inputs to the clocked branch. -/
theorem run_of_quiet (quiet : Quiet wave 0 n) (registers : σ) :
    process.run wave registers n =
      (Port.inputs wave n).foldl (fun current input => process.clocked input current)
        registers := by
  induction n with
  | zero => rfl
  | succ n induction =>
      have final : (wave n).Quiet := quiet.period n ⟨n.zero_le, n.lt_succ_self⟩
      rw [ClockedProcess.run_succ, process.edge_of_quiet final, induction quiet.init, Port.inputs,
        Port.inputs, List.range_succ, List.map_append, List.foldl_append]
      rfl

/-- A run has the effects of the accesses that it carries. -/
theorem run_of_carries (quiet : Quiet wave 0 n)
    (carries : port.Carries (Port.inputs wave n) accesses) (registers : σ) :
    process.run wave registers n =
      accesses.foldl (fun current access => port.effect access current) registers := by
  rw [run_of_quiet quiet, port.foldl_of_carries carries]

/-! ## Cells -/

/-- Access `write i` stores `value i` in cell `i` and leaves the other cells alone. -/
def Stores [DecidableEq κ] (cells : σ → κ → β) (write : κ → α) (value : κ → β) : Prop :=
  ∀ i registers, cells (port.effect (write i) registers) =
    Function.update (cells registers) i (value i)

variable [DecidableEq κ] {cells : σ → κ → β} {write : κ → α} {value : κ → β}

/-- A sequence of such accesses stores its values in the cells that it names, in whatever order. -/
theorem cells_foldl (stores : port.Stores cells write value) (order : List κ) (registers : σ)
    (i : κ) :
    cells ((order.map write).foldl (fun current access => port.effect access current) registers) i =
      if i ∈ order then value i else cells registers i := by
  induction order generalizing registers with
  | nil => simp
  | cons j order induction =>
      rw [List.map_cons, List.foldl_cons, induction, stores j]
      rcases eq_or_ne i j with rfl | other
      · simp
      · simp [other]

/-- After a run that carries a write to each cell the cells hold the written values. -/
theorem cells_of_carries (stores : port.Stores cells write value) {order : List κ}
    (complete : ∀ i, i ∈ order) (quiet : Quiet wave 0 n)
    (carries : port.Carries (Port.inputs wave n) (order.map write)) (registers : σ) :
    cells (process.run wave registers n) = value := by
  funext i
  rw [port.run_of_carries quiet carries, port.cells_foldl stores, if_pos (complete i)]

/-! ## Canonical runs -/

/-- Presenting each access at one edge carries the accesses. -/
theorem carries_map {present : α → ι}
    (presents : ∀ access ∈ accesses, port.Presents (present access) access) :
    port.Carries (accesses.map present) accesses := by
  induction accesses with
  | nil => exact Carries.done
  | cons access accesses induction =>
      have presented : ∀ input ∈ [present access], port.Presents input access := by
        intro input mem
        rw [List.mem_singleton.mp mem]
        exact presents access List.mem_cons_self
      exact Carries.access (List.cons_ne_nil _ _) presented
        (induction fun later mem => presents later (List.mem_cons_of_mem access mem))

/-- A waveform that presents each access at one edge and the port idle from then on. -/
def playback (present : α → ι) (last : ι) (accesses : List α) : ℕ → Period ι :=
  released fun t => (accesses.map present).getD t last

theorem inputs_playback (present : α → ι) (last : ι) (accesses : List α) :
    Port.inputs (playback present last accesses) accesses.length = accesses.map present := by
  apply List.ext_getElem
  · simp [Port.inputs]
  · intro t _ within
    rw [List.length_map] at within
    simp [Port.inputs, playback, released, within]

/-- Such a waveform carries the accesses. -/
theorem carries_playback {present : α → ι} (last : ι)
    (presents : ∀ access ∈ accesses, port.Presents (present access) access) :
    port.Carries (Port.inputs (playback present last accesses) accesses.length) accesses := by
  rw [inputs_playback]
  exact port.carries_map presents

end Port
end Vhdl

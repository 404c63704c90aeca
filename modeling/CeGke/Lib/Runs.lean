import Mathlib.Data.List.Nodup

/-!
# Runs of a labelled transition relation

A machine is a relation `step s e t`: in the state `s` the label `e` can lead to `t`.
`Runs step es s t` says that the labels `es` lead from `s` to `t`, and the rules below
carry a fact about one step over to runs: an invariant, a set of states that is never
left, and a simulation in which some labels are seen by the other machine and the others
are not.
-/

namespace CeGke.Lib

variable {σ τ ε δ : Type*}

/-- `Runs step es s t`: the labels `es` lead, step by step, from `s` to `t`. -/
inductive Runs (step : σ → ε → σ → Prop) : List ε → σ → σ → Prop
  | /-- Nothing happens. -/
    nil {s : σ} : Runs step [] s s
  | /-- A step, and what follows it. -/
    cons {e : ε} {es : List ε} {s t u : σ} : step s e t → Runs step es t u → Runs step (e :: es) s u

namespace Runs

variable {step : σ → ε → σ → Prop} {es fs : List ε} {s t u : σ}

/-- A run of a concatenation passes through a state between its parts. -/
theorem append_iff : Runs step (es ++ fs) s u ↔ ∃ t, Runs step es s t ∧ Runs step fs t u := by
  induction es generalizing s with
  | nil =>
      constructor
      · intro h
        exact ⟨s, .nil, h⟩
      · rintro ⟨t, ⟨⟩, h⟩
        exact h
  | cons e es ih =>
      constructor
      · rintro (_ | ⟨hstep, h⟩)
        obtain ⟨t, hes, hfs⟩ := ih.mp h
        exact ⟨t, .cons hstep hes, hfs⟩
      · rintro ⟨t, _ | ⟨hstep, hes⟩, hfs⟩
        exact .cons hstep (ih.mpr ⟨t, hes, hfs⟩)

theorem cons_iff {e : ε} : Runs step (e :: es) s u ↔ ∃ t, step s e t ∧ Runs step es t u := by
  constructor
  · rintro (_ | ⟨hstep, h⟩)
    exact ⟨_, hstep, h⟩
  · rintro ⟨t, hstep, h⟩
    exact .cons hstep h

/-- What every step preserves, every run preserves. -/
theorem invariant (inv : σ → Prop) (hinv : ∀ {s e t}, inv s → step s e t → inv t)
    (h : Runs step es s t) (hs : inv s) : inv t := by
  induction h with
  | nil => exact hs
  | cons hstep _ ih => exact ih (hinv hs hstep)

/-- In a run from a state with an invariant every step is taken with it. -/
theorem mono_of_invariant {step' : σ → ε → σ → Prop} (inv : σ → Prop)
    (hinv : ∀ {s e t}, inv s → step s e t → step' s e t ∧ inv t) (h : Runs step es s t)
    (hs : inv s) : Runs step' es s t := by
  induction h with
  | nil => exact .nil
  | cons hstep _ ih =>
      obtain ⟨hstep', ht⟩ := hinv hs hstep
      exact .cons hstep' (ih ht)

theorem mono {step' : σ → ε → σ → Prop} (hstep : ∀ {s e t}, step s e t → step' s e t)
    (h : Runs step es s t) : Runs step' es s t := by
  induction h with
  | nil => exact .nil
  | cons h _ ih => exact .cons (hstep h) ih

section Visible

variable {label : ε → Option δ}

/-- A simulation: a label that is seen is a step of the other machine, any other leaves
the state of that machine as it is. -/
theorem simulates {step' : τ → δ → τ → Prop} (f : σ → τ)
    (hseen : ∀ {s e t d}, step s e t → label e = some d → step' (f s) d (f t))
    (hsilent : ∀ {s e t}, step s e t → label e = none → f t = f s) (h : Runs step es s t) :
    Runs step' (es.filterMap label) (f s) (f t) := by
  induction h with
  | nil => exact .nil
  | @cons e es s t u hstep _ ih =>
      cases hlabel : label e with
      | none =>
          rw [List.filterMap_cons_none hlabel, ← hsilent hstep hlabel]
          exact ih
      | some d =>
          rw [List.filterMap_cons_some hlabel]
          exact .cons (hseen hstep hlabel) ih

/-- A label that is only possible outside a set that is never left does not occur in a run
from inside. -/
theorem notMem_filterMap (past : σ → Prop) {d : δ}
    (hkeep : ∀ {s e t}, past s → step s e t → past t)
    (hnot : ∀ {s e t}, past s → step s e t → label e ≠ some d) (h : Runs step es s t)
    (hs : past s) : d ∉ es.filterMap label := by
  intro hmem
  obtain ⟨e, he, hlabel⟩ := List.mem_filterMap.mp hmem
  obtain ⟨before, after, rfl⟩ := List.append_of_mem he
  obtain ⟨t', hbefore, hafter⟩ := append_iff.mp h
  obtain ⟨u', hstep, _⟩ := cons_iff.mp hafter
  exact hnot (hbefore.invariant past hkeep hs) hstep hlabel

/-- If each label that is seen leads into a set from which it is not possible again, none is
seen twice. -/
theorem nodup_filterMap (past : δ → σ → Prop)
    (hdone : ∀ {s e t d}, step s e t → label e = some d → past d t)
    (hkeep : ∀ {s e t d}, past d s → step s e t → past d t)
    (hnot : ∀ {s e t d}, past d s → step s e t → label e ≠ some d) (h : Runs step es s t) :
    (es.filterMap label).Nodup := by
  induction h with
  | nil => exact List.nodup_nil
  | @cons e es s t u hstep hrest ih =>
      cases hlabel : label e with
      | none => rwa [List.filterMap_cons_none hlabel]
      | some d =>
          rw [List.filterMap_cons_some hlabel]
          exact List.nodup_cons.mpr
            ⟨hrest.notMem_filterMap (past d) hkeep hnot (hdone hstep hlabel), ih⟩

end Visible

/-! ## Machines that are functions -/

/-- Replay the labels on a machine that is a function, for as long as `ok` admits them. -/
def replay (next : σ → ε → Option σ) (ok : σ → ε → Bool) : List ε → σ → Option σ
  | [], s => some s
  | e :: es, s => if ok s e then (next s e).bind (replay next ok es) else none

theorem of_replay {next : σ → ε → Option σ} {ok : σ → ε → Bool}
    (h : replay next ok es s = some t) :
    Runs (fun s e t ↦ next s e = some t ∧ ok s e = true) es s t := by
  induction es generalizing s with
  | nil =>
      obtain rfl := Option.some.inj h
      exact .nil
  | cons e es ih =>
      rw [replay] at h
      split_ifs at h with hok
      obtain ⟨u, hnext, hrest⟩ := Option.bind_eq_some_iff.mp h
      exact .cons ⟨hnext, hok⟩ (ih hrest)

end Runs

end CeGke.Lib

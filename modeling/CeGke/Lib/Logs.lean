import Mathlib.Data.List.Infix

/-!
# Logs in which each event is justified by those before it

`Justified ok log` says that `ok before e` holds of every event `e` of the log and the events
`before` it.
-/

namespace CeGke.Lib

variable {ε : Type*}

/-- Each event is justified by those before it. -/
inductive Justified (ok : List ε → ε → Prop) : List ε → Prop
  | nil : Justified ok []
  | snoc {log : List ε} {e : ε} : Justified ok log → ok log e → Justified ok (log ++ [e])

namespace Justified

variable {ok : List ε → ε → Prop} {log before : List ε} {e : ε}

theorem of_isPrefix (h : Justified ok log) (hinit : before ++ [e] <+: log) : ok before e := by
  induction h with
  | nil => exact absurd (List.prefix_nil.mp hinit) (by simp)
  | snoc _ hok ih =>
      rcases List.prefix_concat_iff.mp hinit with heq | hinit
      · obtain ⟨rfl, hlast⟩ := List.append_inj' heq rfl
        exact List.singleton_inj.mp hlast ▸ hok
      · exact ih hinit

theorem of_forall (h : ∀ before e, before ++ [e] <+: log → ok before e) : Justified ok log := by
  induction log using List.reverseRecOn with
  | nil => exact .nil
  | append_singleton log e ih =>
      refine .snoc (ih fun before e' hinit ↦ h before e' (hinit.trans (List.prefix_append _ _))) ?_
      exact h log e (List.prefix_refl _)

end Justified

end CeGke.Lib

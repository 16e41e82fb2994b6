import PageLoom.Disk.Basic

/-!
# Work on a disk

Work is done on a disk step by step.  It stops at the first step that fails, and what
was done before that step stays done.
-/

namespace PageLoom

/-- Work on a disk. -/
abbrev Work (ε α : Type) := ExceptT ε (StateM Disk) α

namespace Work

variable {ε α β : Type}

/-- A step that leaves the disk as it was if it fails. -/
def change (f : Disk → Except DiskError Disk) (wrap : DiskError → ε) : Work ε Unit := fun d =>
  match f d with
  | .ok d => (.ok (), d)
  | .error e => (.error (wrap e), d)

/-- Make a folder and the folders that it is in, unless they are there. -/
def makeFolders (p : Path) (wrap : DiskError → ε) : Work ε Unit := fun d =>
  match d.makeFolders p with
  | (.ok (), d) => (.ok (), d)
  | (.error e, d) => (.error (wrap e), d)

/-- What is decided already. -/
def ofExcept (r : Except ε α) : Work ε α := fun d => (r, d)

/-- Work with other errors. -/
def mapError {ε' : Type} (wrap : ε → ε') (w : Work ε α) : Work ε' α := fun d =>
  match w d with
  | (.ok a, d) => (.ok a, d)
  | (.error e, d) => (.error (wrap e), d)

/-- Work goes on with what its first part gives, and ends if that fails. -/
theorem bind_apply (w : Work ε α) (f : α → Work ε β) (d : Disk) : (w >>= f) d =
    match w d with
    | (.ok a, d₁) => f a d₁
    | (.error e, d₁) => (.error e, d₁) := by
  have hbind : (w >>= f) d = (match w d with | (r, d₁) => ExceptT.bindCont f r d₁) := rfl
  rw [hbind]
  rcases w d with ⟨e | a, d₁⟩ <;> rfl

end Work

end PageLoom

import SyntaxRepair.World
import SyntaxRepair.Proofs.Files.Texts

/-!
# What acts do to the world

Each act of a command as a function of the world, so that later proofs go through a command act by
act and do not open it again.  An act that only looks leaves the world as it is (`Act.Looks`).
-/

namespace SyntaxRepair

variable {σ : Type}

/-- The world after a line of complaint. -/
def World.complained (world : World σ) (line : Text) : World σ :=
  { world with stderr := world.stderr ++ (line ++ "\n") }

namespace Act

variable {α β : Type} {world : World σ}

@[simp] theorem start_get : (get : Act σ (World σ)).start world = (.ok world, world) := rfl

@[simp] theorem start_modify (change : World σ → World σ) :
    (modify change : Act σ PUnit).start world = (.ok ⟨⟩, change world) := rfl

@[simp] theorem start_complain (line : Text) :
    (complain line).start world = (.ok ⟨⟩, world.complained line) := rfl

@[simp] theorem start_orThrow {ε : Type} (wrap : ε → Error) (outcome : Except ε α) :
    (orThrow wrap outcome).start world = (outcome.mapError wrap, world) := by
  cases outcome <;> rfl

/-- An act goes on with the value of the one before it. -/
theorem start_bind_of_ok {first : Act σ α} {next : α → Act σ β} {value : α} {after : World σ}
    (h : first.start world = (.ok value, after)) :
    (first >>= next).start world = (next value).start after := by
  rw [start_bind, h]

/-- An error ends the acts. -/
theorem start_bind_of_error {first : Act σ α} {next : α → Act σ β} {error : Error}
    {after : World σ} (h : first.start world = (.error error, after)) :
    (first >>= next).start world = (.error error, after) := by
  rw [start_bind, h]

/-- A computation without effects, as the first part of one. -/
theorem start_bind_orThrow {ε : Type} {wrap : ε → Error} {outcome : Except ε α}
    {next : α → Act σ β} {rest : α → Except Error β}
    (hnext : ∀ value, (next value).start world = (rest value, world)) :
    (orThrow wrap outcome >>= next).start world = (outcome.mapError wrap >>= rest, world) := by
  rw [start_bind, start_orThrow]
  cases outcome with
  | error cause => rfl
  | ok value => exact hnext value

@[simp] theorem start_readText (path : Path) :
    (readText path).start world = (world.files.readText path, world) := by
  rw [readText, start_bind_of_ok start_get]
  exact start_bind_orThrow fun octets => start_bind_orThrow fun text => rfl

/-- A text without octets empties the file before that turns out. -/
theorem start_writeText (path : Path) (text : Text) :
    (writeText path text).start world =
      match Utf8.encode text, world.files.write path ((Utf8.encode text).toOption.getD []) with
      | _, .error fault => (.error (.file fault), world)
      | .ok _, .ok files => (.ok ⟨⟩, { world with files })
      | .error fault, .ok files =>
          (.error (.failure (.unencodable fault)), { world with files }) := by
  rw [writeText]
  cases Utf8.encode text with
  | ok octets =>
      simp only [writeOctets, start_bind, start_get, start_orThrow, Except.toOption,
        Option.getD_some]
      cases world.files.write path octets <;> rfl
  | error fault =>
      simp only [writeOctets, start_bind, start_get, start_orThrow, Except.toOption,
        Option.getD_none]
      cases world.files.write path [] <;> rfl

/-- Complaints one after another. -/
theorem start_forM_complain {ι : Type} (line : ι → Text) (items : List ι) :
    (items.forM fun item => (complain (line item) : Act σ PUnit)).start world =
      (.ok ⟨⟩, items.foldl (fun before item => before.complained (line item)) world) := by
  induction items generalizing world with
  | nil => rfl
  | cons item rest ih => exact (start_bind_of_ok (start_complain _)).trans ih

/-! ## Acts that only look -/

/-- An act that leaves the world as it is. -/
def Looks (act : Act σ α) : Prop := ∀ world, (act.start world).2 = world

theorem looks_pure (value : α) : (pure value : Act σ α).Looks := fun _ => rfl

theorem looks_throw (error : Error) : (throw error : Act σ α).Looks := fun _ => rfl

theorem looks_orThrow {ε : Type} (wrap : ε → Error) (outcome : Except ε α) :
    (orThrow wrap outcome : Act σ α).Looks :=
  fun _ => by rw [start_orThrow]

theorem looks_readText (path : Path) : (readText path : Act σ Text).Looks :=
  fun _ => by rw [start_readText]

theorem Looks.attempt {act : Act σ α} (hact : act.Looks) : act.attempt.Looks :=
  fun world => hact world

theorem Looks.bind {first : Act σ α} {next : α → Act σ β} (hfirst : first.Looks)
    (hnext : ∀ value, (next value).Looks) : (first >>= next).Looks := by
  intro world
  have hworld := hfirst world
  rw [start_bind]
  generalize first.start world = outcome at hworld ⊢
  obtain ⟨error | value, after⟩ := outcome
  · exact hworld
  · obtain rfl : after = world := hworld
    exact hnext value after

end Act

end SyntaxRepair

import RDrive.Lib.Fs

/-! A path that is spelled out, joined to a directory and resolved by its spelling
alone: an absolute one takes the place of the directory, and .. goes one up. -/
namespace RDrive.Path

/- A part that names something in the directory it stands in. -/
def Names (part : List Char) : Prop := part ≠ [] ∧ part ≠ ['.'] ∧ part ≠ ['.','.']

instance (part : List Char) : Decidable (Names part) := inferInstanceAs (Decidable (_ ∧ _))

def resolve (base : Path) : List (List Char) → Path
  | [] => base
  | part :: rest =>
    if Names part then resolve (base ++ [String.ofList part]) rest
    else if part = ['.','.'] then resolve base.dropLast rest
    else resolve base rest

def parts (text : String) : List (List Char) := text.toList.splitOn '/'

def start (base : Path) (text : String) : Path := if text.toList.head? = some '/' then [] else base

def dirOf (base : Path) (text : String) : Path := resolve (start base text) (parts text).dropLast
def lastOf (text : String) : List Char := (parts text).getLastD []

/- No file is made at a path with a NUL in it, or at one that does not end in a name. -/
def NamesFile (text : String) : Prop := '\x00' ∉ text.toList ∧ Names (lastOf text)

instance (text : String) : Decidable (NamesFile text) := inferInstanceAs (Decidable (_ ∧ _))

/- base.join(text), where a file can be made. -/
def join (base : Path) (text : String) : Option Path :=
  if NamesFile text then some (dirOf base text ++ [String.ofList (lastOf text)]) else none

structure Plain (text : String) : Prop where
  unseparated : '/' ∉ text.toList
  namesFile : NamesFile text

variable {base p : Path} {text : String}

theorem joinInner (joined : join base text = some p) : p ≠ [] := by
  unfold join at joined
  split at joined <;> try contradiction
  cases Option.some.inj joined
  exact List.concat_ne_nil _ _

theorem joinParent (joined : join base text = some p) : p.dropLast = dirOf base text := by
  unfold join at joined
  split at joined <;> try contradiction
  cases Option.some.inj joined
  exact List.dropLast_concat

theorem plainParts (plain : Plain text) : parts text = [text.toList] :=
  List.splitOn_eq_singleton plain.unseparated

theorem plainOf (unseparated : '/' ∉ text.toList) (clear : '\x00' ∉ text.toList)
    (names : Names text.toList) : Plain text := by
  refine ⟨unseparated,clear,?_⟩
  unfold lastOf parts
  rw [List.splitOn_eq_singleton unseparated]
  exact names

theorem namesOf {part : List Char} {c : Char} (member : c ∈ part) (other : c ≠ '.') : Names part := by
  refine ⟨?_,?_,?_⟩ <;> rintro rfl <;> simp_all

theorem plainDir (plain : Plain text) : dirOf base text = base := by
  unfold dirOf start
  rw [plainParts plain,if_neg]
  · rfl
  · intro absolute
    exact plain.unseparated (List.mem_of_mem_head? absolute)

theorem joinPlain (plain : Plain text) : join base text = some (base ++ [text]) := by
  unfold join
  rw [if_pos plain.namesFile,plainDir plain]
  unfold lastOf
  rw [plainParts plain]
  simp

end RDrive.Path

import Mathlib.Tactic

/-!
# Files, and handles cached by name

Files have an identity that they keep when they are renamed: a location has at most one
file and a file is at one location.  A new file gets an identity that no file has had.

A cache of open handles is keyed by the name a file was opened with; several names may
stand for one location, a handle stays bound to the file it opened, and a file that is open
is not opened again.

**Results.**
* `FileStore.rearrange`, `touch`, `rewrite`: renaming and removing, opening with creation
  and rewriting.
* `FileStore.Follows`: a file that is gone does not come back.
* `HandleCache.openName_current`: in a cache that is up to date, opening a name yields the
  file at its location unless that is open under another name.
* `HandleCache.opensCurrent_iff`: what it takes for two names to be opened as they should.
-/

namespace DistributedDB

universe u v

/-- A file: its identity, and how often it has been rewritten. -/
structure DiskFile where
  inode : Nat
  rewrites : Nat
deriving DecidableEq, Repr

structure FileStore (Loc : Type u) where
  files : Loc → Option DiskFile
  nextInode : Nat
  distinct : ∀ l l' f f', files l = some f → files l' = some f' →
      f.inode = f'.inode → l = l'
  inode_lt : ∀ l f, files l = some f → f.inode < nextInode

namespace FileStore

variable {Loc : Type u}

def empty : FileStore Loc where
  files := fun _ => none
  nextInode := 0
  distinct := nofun
  inode_lt := nofun

/-- Some location has the file. -/
def Linked (s : FileStore Loc) (inode : Nat) : Prop :=
  ∃ l f, s.files l = some f ∧ f.inode = inode

/-- The files of the second store are files of the first, or new. -/
def Follows (s t : FileStore Loc) : Prop :=
  s.nextInode ≤ t.nextInode ∧
    ∀ inode, t.Linked inode → s.Linked inode ∨ s.nextInode ≤ inode

/-- The file that is opened at a location: a new one if there is none. -/
def fileOf (s : FileStore Loc) (l : Loc) : DiskFile :=
  (s.files l).getD ⟨s.nextInode, 0⟩

/-- Every location gets the file of its source. -/
def rearrange (s : FileStore Loc) (source : Loc → Option Loc)
    (hinj : ∀ l l' l₀, source l = some l₀ → source l' = some l₀ → l = l') :
    FileStore Loc where
  files := fun l => (source l).bind s.files
  nextInode := s.nextInode
  distinct := by
    intro l l' f f' hf hf' heq
    obtain ⟨l₀, hl, hf⟩ := Option.bind_eq_some_iff.mp hf
    obtain ⟨l₀', hl', hf'⟩ := Option.bind_eq_some_iff.mp hf'
    obtain rfl := s.distinct l₀ l₀' f f' hf hf' heq
    exact hinj l l' l₀ hl hl'
  inode_lt := by
    intro l f hf
    obtain ⟨l₀, -, hf⟩ := Option.bind_eq_some_iff.mp hf
    exact s.inode_lt l₀ f hf

section Sources

variable {s : FileStore Loc} {source : Loc → Option Loc}
  {hinj : ∀ l l' l₀, source l = some l₀ → source l' = some l₀ → l = l'}

theorem files_rearrange_of_eq {l : Loc} (hl : source l = some l) :
    (s.rearrange source hinj).files l = s.files l := by
  simp only [rearrange, hl, Option.bind_some]

theorem files_rearrange_of_none {l : Loc} (hl : source l = none) :
    (s.rearrange source hinj).files l = none := by
  simp only [rearrange, hl, Option.bind_none]

theorem follows_rearrange : s.Follows (s.rearrange source hinj) := by
  refine ⟨le_rfl, ?_⟩
  rintro inode ⟨l, f, hf, rfl⟩
  obtain ⟨l₀, -, hf⟩ := Option.bind_eq_some_iff.mp hf
  exact Or.inl ⟨l₀, f, hf, rfl⟩

/-- A file that has been removed from its location is nowhere. -/
theorem not_linked_rearrange {l : Loc} {f : DiskFile} (hf : s.files l = some f)
    (hl : ∀ l', source l' ≠ some l) : ¬ (s.rearrange source hinj).Linked f.inode := by
  rintro ⟨l', f', hf', heq⟩
  obtain ⟨l₀, hl', hf'⟩ := Option.bind_eq_some_iff.mp hf'
  obtain rfl := s.distinct l₀ l f' f hf' hf heq
  exact hl l' hl'

end Sources

theorem Follows.refl (s : FileStore Loc) : s.Follows s :=
  ⟨le_rfl, fun _ => Or.inl⟩

theorem Follows.trans {s t r : FileStore Loc} (h : s.Follows t) (h' : t.Follows r) :
    s.Follows r := by
  refine ⟨h.1.trans h'.1, fun inode hlinked => ?_⟩
  rcases h'.2 inode hlinked with hold | hnew
  · exact h.2 inode hold
  · exact Or.inr (h.1.trans hnew)

/-- **A file that is gone does not come back.** -/
theorem Follows.not_linked {s t : FileStore Loc} (h : s.Follows t) {inode : Nat}
    (hlt : inode < s.nextInode) (hgone : ¬ s.Linked inode) : ¬ t.Linked inode := by
  intro hlinked
  rcases h.2 inode hlinked with hold | hnew
  · exact hgone hold
  · omega

theorem fileOf_eq {s : FileStore Loc} {l : Loc} {f : DiskFile} (hf : s.files l = some f) :
    s.fileOf l = f := by
  rw [fileOf, hf, Option.getD_some]

/-- The file opened at a location is there already, or new. -/
theorem fileOf_cases (s : FileStore Loc) (l : Loc) :
    s.files l = some (s.fileOf l) ∨ s.files l = none ∧ (s.fileOf l).inode = s.nextInode := by
  cases hf : s.files l with
  | some f => exact Or.inl (by rw [fileOf_eq hf])
  | none => exact Or.inr ⟨rfl, by rw [fileOf, hf, Option.getD_none]⟩

theorem fileOf_lt (s : FileStore Loc) (l : Loc) : (s.fileOf l).inode < s.nextInode + 1 := by
  rcases s.fileOf_cases l with hf | hf
  · exact (s.inode_lt l _ hf).trans (Nat.lt_succ_self _)
  · omega

section Opening

variable [DecidableEq Loc]

/-- A location gets another version of the file that is opened there. -/
def place (s : FileStore Loc) (l : Loc) (rewrites : Nat) : FileStore Loc where
  files := Function.update s.files l (some ⟨(s.fileOf l).inode, rewrites⟩)
  nextInode := s.nextInode + 1
  distinct := by
    have hother : ∀ l' f', s.files l' = some f' → f'.inode = (s.fileOf l).inode → l' = l := by
      intro l' f' hf' heq
      rcases s.fileOf_cases l with hf | hf
      · exact s.distinct l' l f' _ hf' hf heq
      · have hlt := s.inode_lt l' f' hf'
        omega
    intro l₁ l₂ f₁ f₂ hf₁ hf₂ heq
    rw [Function.update_apply] at hf₁ hf₂
    split at hf₁ <;> split at hf₂
    case isTrue.isTrue h₁ h₂ => exact h₁.trans h₂.symm
    case isTrue.isFalse h₁ h₂ =>
        obtain rfl := Option.some.inj hf₁
        exact absurd (hother l₂ f₂ hf₂ heq.symm) h₂
    case isFalse.isTrue h₁ h₂ =>
        obtain rfl := Option.some.inj hf₂
        exact absurd (hother l₁ f₁ hf₁ heq) h₁
    case isFalse.isFalse => exact s.distinct l₁ l₂ f₁ f₂ hf₁ hf₂ heq
  inode_lt := by
    intro l' f' hf'
    rw [Function.update_apply] at hf'
    split at hf'
    case isTrue =>
        obtain rfl := Option.some.inj hf'
        exact s.fileOf_lt l
    case isFalse => exact (s.inode_lt l' f' hf').trans (Nat.lt_succ_self _)

/-- Open with creation. -/
def touch (s : FileStore Loc) (l : Loc) : FileStore Loc :=
  s.place l (s.fileOf l).rewrites

/-- Open with truncation and write. -/
def rewrite (s : FileStore Loc) (l : Loc) : FileStore Loc :=
  s.place l ((s.fileOf l).rewrites + 1)

/-- Rename, when there is a file. -/
def rename (s : FileStore Loc) (src dest : Loc) : FileStore Loc :=
  if (s.files src).isNone then s
  else
    s.rearrange
      (fun l => if l = dest then some src else if l = src then none else some l) (by
        intro l l' l₀ hl hl'
        grind)

variable {s : FileStore Loc} {l l' : Loc} {f : DiskFile}

theorem files_place_of_ne {rewrites : Nat} (h : l' ≠ l) :
    (s.place l rewrites).files l' = s.files l' :=
  Function.update_of_ne h _ _

theorem follows_place (rewrites : Nat) : s.Follows (s.place l rewrites) := by
  refine ⟨Nat.le_succ _, ?_⟩
  rintro inode ⟨l', f', hf', rfl⟩
  simp only [place, Function.update_apply] at hf'
  split at hf'
  case isTrue =>
      obtain rfl := Option.some.inj hf'
      rcases s.fileOf_cases l with hf | hf
      · exact Or.inl ⟨l, _, hf, rfl⟩
      · exact Or.inr hf.2.ge
  case isFalse => exact Or.inl ⟨l', f', hf', rfl⟩

theorem files_touch (l : Loc) : (s.touch l).files = Function.update s.files l (some (s.fileOf l)) :=
  rfl

/-- The files stay when one of them is opened. -/
theorem files_touch_of_some (h : s.files l' = some f) : (s.touch l).files l' = some f := by
  rw [files_touch, Function.update_apply]
  split
  case isTrue heq =>
      subst heq
      rw [fileOf_eq h]
  case isFalse => exact h

theorem files_of_touch (h : (s.touch l).files l' = some f) (hlt : f.inode < s.nextInode) :
    s.files l' = some f := by
  rw [files_touch, Function.update_apply] at h
  split at h
  case isTrue heq =>
      subst heq
      obtain rfl := Option.some.inj h
      rcases s.fileOf_cases l' with hf | hf
      · exact hf
      · omega
  case isFalse => exact h

theorem files_rename_of_ne (hsrc : l ≠ l') {dest : Loc} (hdest : l ≠ dest) :
    (s.rename l' dest).files l = s.files l := by
  rw [rename]
  split
  case isTrue => rfl
  case isFalse => exact files_rearrange_of_eq (by rw [if_neg hdest, if_neg hsrc])

theorem follows_rename (dest : Loc) : s.Follows (s.rename l dest) := by
  rw [rename]
  split
  case isTrue => exact Follows.refl s
  case isFalse => exact follows_rearrange

end Opening

end FileStore

/-- Open handles by the names they were opened with; `store` has the files. -/
structure HandleCache (Name : Type v) (Loc : Type u) where
  bound : Name → Option DiskFile
  store : FileStore Loc

namespace HandleCache

variable {Name : Type v} {Loc : Type u} (resolve : Name → Loc)

/-- Every handle is bound to the file at the location of its name. -/
def UpToDate (c : HandleCache Name Loc) : Prop :=
  ∀ n f, c.bound n = some f → c.store.files (resolve n) = some f

/-- No file is open under two names. -/
def OpenedOnce (c : HandleCache Name Loc) : Prop :=
  ∀ n n' f f', c.bound n = some f → c.bound n' = some f' → f.inode = f'.inode → n = n'

/-- No location is open under two names. -/
def OneSpelling (c : HandleCache Name Loc) : Prop :=
  ∀ n n' f f', c.bound n = some f → c.bound n' = some f' → resolve n = resolve n' → n = n'

/-- The handles are bound to files that have existed. -/
def Bounded (c : HandleCache Name Loc) : Prop :=
  ∀ n f, c.bound n = some f → f.inode < c.store.nextInode

/-- The location of the name is not open under another name. -/
def Unaliased (c : HandleCache Name Loc) (n : Name) : Prop :=
  ∀ m f, c.bound m = some f → resolve m = resolve n → m = n

variable {resolve}

/-- In a cache that is up to date, a file is open under one name if its location is. -/
theorem UpToDate.openedOnce {c : HandleCache Name Loc} (h : c.UpToDate resolve)
    (hspell : c.OneSpelling resolve) : c.OpenedOnce := by
  intro n n' f f' hf hf' heq
  exact hspell n n' f f' hf hf' (c.store.distinct _ _ f f' (h n f hf) (h n' f' hf') heq)

section Opening

variable [DecidableEq Name] [DecidableEq Loc]

variable (resolve) in
open Classical in
/-- Open a name: the cached handle, or the file at its location if it is not open. -/
noncomputable def openName (c : HandleCache Name Loc) (n : Name) :
    HandleCache Name Loc × Option DiskFile :=
  match c.bound n with
  | some f => (c, some f)
  | none =>
      let f := c.store.fileOf (resolve n)
      let store := c.store.touch (resolve n)
      if ∃ m f', c.bound m = some f' ∧ f'.inode = f.inode then (⟨c.bound, store⟩, none)
      else (⟨Function.update c.bound n (some f), store⟩, some f)

variable {c : HandleCache Name Loc} {n m : Name} {f : DiskFile}

variable (resolve) in
/-- What opening a name can do. -/
theorem openName_cases (c : HandleCache Name Loc) (n : Name) :
    (∃ f, c.bound n = some f ∧ c.openName resolve n = (c, some f)) ∨
    c.bound n = none ∧
      (((∃ m f', c.bound m = some f' ∧ f'.inode = (c.store.fileOf (resolve n)).inode) ∧
          c.openName resolve n = (⟨c.bound, c.store.touch (resolve n)⟩, none)) ∨
        ((¬ ∃ m f', c.bound m = some f' ∧ f'.inode = (c.store.fileOf (resolve n)).inode) ∧
          c.openName resolve n =
            (⟨Function.update c.bound n (some (c.store.fileOf (resolve n))),
              c.store.touch (resolve n)⟩,
            some (c.store.fileOf (resolve n))))) := by
  cases hn : c.bound n with
  | some f => exact Or.inl ⟨f, rfl, by simp only [openName, hn]⟩
  | none =>
      refine Or.inr ⟨rfl, ?_⟩
      by_cases hopen : ∃ m f', c.bound m = some f' ∧
          f'.inode = (c.store.fileOf (resolve n)).inode
      · exact Or.inl ⟨hopen, by simp only [openName, hn, if_pos hopen]⟩
      · exact Or.inr ⟨hopen, by simp only [openName, hn, if_neg hopen]⟩

/-- The handles stay. -/
theorem bound_openName (h : c.bound m = some f) :
    (c.openName resolve n).1.bound m = some f := by
  rcases c.openName_cases resolve n with
    ⟨f', -, heq⟩ | ⟨hn, ⟨-, heq⟩ | ⟨-, heq⟩⟩ <;> rw [heq]
  · exact h
  · exact h
  · refine (Function.update_of_ne ?_ _ _).trans h
    rintro rfl
    rw [hn] at h
    cases h

/-- The name has the handle that is returned. -/
theorem bound_of_openName (h : (c.openName resolve n).2 = some f) :
    (c.openName resolve n).1.bound n = some f := by
  rcases c.openName_cases resolve n with
    ⟨f', hn, heq⟩ | ⟨-, ⟨-, heq⟩ | ⟨-, heq⟩⟩ <;> rw [heq] at h ⊢
  · exact hn.trans h
  · cases h
  · exact (Function.update_self ..).trans h

/-- The other handles were there before. -/
theorem bound_openName_of_ne (h : m ≠ n) : (c.openName resolve n).1.bound m = c.bound m := by
  rcases c.openName_cases resolve n with
    ⟨f', -, heq⟩ | ⟨-, ⟨-, heq⟩ | ⟨-, heq⟩⟩ <;> rw [heq]
  exact Function.update_of_ne h _ _

variable (resolve) in
/-- The store is the same, but that the file at the location may be new. -/
theorem store_openName (c : HandleCache Name Loc) (n : Name) :
    (c.openName resolve n).1.store = c.store ∨
      (c.openName resolve n).1.store = c.store.touch (resolve n) := by
  rcases c.openName_cases resolve n with
    ⟨f', -, heq⟩ | ⟨-, ⟨-, heq⟩ | ⟨-, heq⟩⟩ <;> rw [heq]
  · exact Or.inl rfl
  · exact Or.inr rfl
  · exact Or.inr rfl

theorem files_openName {l : Loc} (h : c.store.files l = some f) :
    (c.openName resolve n).1.store.files l = some f := by
  rcases c.store_openName resolve n with heq | heq <;> rw [heq]
  · exact h
  · exact FileStore.files_touch_of_some h

theorem files_of_openName {l : Loc} (h : (c.openName resolve n).1.store.files l = some f)
    (hlt : f.inode < c.store.nextInode) : c.store.files l = some f := by
  rcases c.store_openName resolve n with heq | heq <;> rw [heq] at h
  · exact h
  · exact FileStore.files_of_touch h hlt

variable (resolve) in
theorem follows_openName (c : HandleCache Name Loc) (n : Name) :
    c.store.Follows (c.openName resolve n).1.store := by
  rcases c.store_openName resolve n with heq | heq <;> rw [heq]
  · exact FileStore.Follows.refl _
  · exact FileStore.follows_place _

/-- **In a cache that is up to date, opening a name whose location is not open under
another name yields the file that is there, and the cache stays up to date.** -/
theorem openName_current (h : c.UpToDate resolve) (hn : c.Unaliased resolve n) :
    ∃ f, (c.openName resolve n).2 = some f ∧
      (c.openName resolve n).1.store.files (resolve n) = some f ∧
      (c.openName resolve n).1.UpToDate resolve := by
  rcases c.openName_cases resolve n with
    ⟨f, hf, heq⟩ | ⟨hnone, ⟨⟨m, f, hm, hinode⟩, -⟩ | ⟨-, heq⟩⟩
  · rw [heq]
    exact ⟨f, rfl, h n f hf, h⟩
  · have hfile := h m f hm
    rcases c.store.fileOf_cases (resolve n) with hold | ⟨-, hnew⟩
    · have hloc := c.store.distinct _ _ f _ hfile hold hinode
      obtain rfl := hn m f hm hloc
      rw [hnone] at hm
      cases hm
    · have hlt := c.store.inode_lt _ f hfile
      omega
  · rw [heq]
    refine ⟨_, rfl, Function.update_self .., fun m f hm => ?_⟩
    simp only [Function.update_apply] at hm
    split at hm
    case isTrue hmn =>
        subst hmn
        exact (Function.update_self ..).trans hm
    case isFalse => exact FileStore.files_touch_of_some (h m f hm)

theorem Unaliased.openName (h : c.Unaliased resolve m) (hne : resolve n ≠ resolve m) :
    (c.openName resolve n).1.Unaliased resolve m := by
  intro m' f hm' heq
  refine h m' f ?_ heq
  rwa [bound_openName_of_ne] at hm'
  rintro rfl
  exact hne heq

theorem OneSpelling.openName (h : c.OneSpelling resolve) (hn : c.Unaliased resolve n) :
    (c.openName resolve n).1.OneSpelling resolve := by
  intro m m' f f' hm hm' heq
  by_cases hmn : m = n <;> by_cases hmn' : m' = n
  · exact hmn.trans hmn'.symm
  · rw [bound_openName_of_ne hmn'] at hm'
    exact (hmn.trans (hn m' f' hm' (hmn ▸ heq.symm)).symm)
  · rw [bound_openName_of_ne hmn] at hm
    exact (hn m f hm (hmn' ▸ heq)).trans hmn'.symm
  · rw [bound_openName_of_ne hmn] at hm
    rw [bound_openName_of_ne hmn'] at hm'
    exact h m m' f f' hm hm' heq

variable (resolve) in
/-- Opening two names yields handles, and a cache that is up to date, with no file open
under two names. -/
structure OpensCurrent (c : HandleCache Name Loc) (n m : Name) : Prop where
  first : (c.openName resolve n).2.isSome
  second : ((c.openName resolve n).1.openName resolve m).2.isSome
  upToDate : ((c.openName resolve n).1.openName resolve m).1.UpToDate resolve
  openedOnce : ((c.openName resolve n).1.openName resolve m).1.OpenedOnce

/-- **Two names are opened as they should be exactly when the cache is up to date, with one
name for a location, and neither location is open under another name.** -/
theorem opensCurrent_iff (hbounded : c.Bounded) (hne : resolve n ≠ resolve m) :
    c.OpensCurrent resolve n m ↔
      c.UpToDate resolve ∧ c.OneSpelling resolve ∧ c.Unaliased resolve n ∧
        c.Unaliased resolve m := by
  constructor
  · intro h
    have hkept : ∀ k f, c.bound k = some f →
        ((c.openName resolve n).1.openName resolve m).1.bound k = some f :=
      fun k f hk => bound_openName (bound_openName hk)
    have hsame : ∀ k k' f f', ((c.openName resolve n).1.openName resolve m).1.bound k = some f →
        ((c.openName resolve n).1.openName resolve m).1.bound k' = some f' →
        resolve k = resolve k' → k = k' := by
      intro k k' f f' hk hk' heq
      have hfile := h.upToDate k f hk
      rw [heq, h.upToDate k' f' hk'] at hfile
      exact h.openedOnce k k' f f' hk hk' (congrArg DiskFile.inode (Option.some.inj hfile)).symm
    obtain ⟨f, hf⟩ := Option.isSome_iff_exists.mp h.first
    obtain ⟨g, hg⟩ := Option.isSome_iff_exists.mp h.second
    refine ⟨fun k f hk => ?_, fun k k' f f' hk hk' => ?_, fun k f' hk => ?_, fun k f' hk => ?_⟩
    · have hlt := hbounded k f hk
      have hlt' := hlt.trans_le (c.follows_openName resolve n).1
      exact files_of_openName (files_of_openName (h.upToDate k f (hkept k f hk)) hlt') hlt
    · exact hsame k k' f f' (hkept k f hk) (hkept k' f' hk')
    · exact hsame k n f' f (hkept k f' hk) (bound_openName (bound_of_openName hf))
    · exact hsame k m f' g (hkept k f' hk) (bound_of_openName hg)
  · rintro ⟨hup, hone, hn, hm⟩
    obtain ⟨f, hf, -, hup'⟩ := openName_current hup hn
    have hm' := hm.openName hne
    obtain ⟨g, hg, -, hup''⟩ := openName_current hup' hm'
    refine ⟨by rw [hf]; rfl, by rw [hg]; rfl, hup'', ?_⟩
    exact hup''.openedOnce ((hone.openName hn).openName hm')

end Opening

end HandleCache

end DistributedDB

import Mathlib

/-! # Directory trees as bytes

A tree is written in preorder, each node with its whole path and each variable part behind its
length.  No node says how many children it has: where a directory ends is seen from the path of
the node that follows.
-/

namespace RootCx.FileTree

open List

/-! ## Framing -/

def littleEndian : Nat → Nat → List UInt8
  | 0, _ => []
  | width + 1, n => UInt8.ofNat n :: littleEndian width (n / 256)

/-- Bytes behind their length. -/
def framed (bytes : List UInt8) : List UInt8 := littleEndian 8 bytes.length ++ bytes

section Framing

variable {width n m : Nat} {bytes bytes' rest rest' : List UInt8}

@[simp] theorem littleEndian_length : (littleEndian width n).length = width := by
  induction width generalizing n with
  | zero => rfl
  | succ width ih => simp [littleEndian, ih]

theorem littleEndian_inj (small : n < 256 ^ width) (small' : m < 256 ^ width)
    (same : littleEndian width n = littleEndian width m) : n = m := by
  induction width generalizing n m with
  | zero => omega
  | succ width ih =>
    rw [Nat.pow_succ] at small small'
    obtain ⟨low, high⟩ := cons.inj same
    have low : n % 256 = m % 256 := by simpa using congrArg UInt8.toNat low
    have high : n / 256 = m / 256 := ih (by omega) (by omega) high
    omega

/-- The length tells where framed bytes end. -/
theorem framed_append_inj (small : bytes.length < 2 ^ 64) (small' : bytes'.length < 2 ^ 64)
    (same : framed bytes ++ rest = framed bytes' ++ rest') : bytes = bytes' ∧ rest = rest' := by
  unfold framed at same
  rw [append_assoc, append_assoc] at same
  obtain ⟨lengths, behind⟩ := append_inj same (by simp)
  have length := littleEndian_inj (by omega) (by omega) lengths
  exact append_inj behind length

theorem framed_ne_nil : framed bytes ++ rest ≠ [] := by
  intro empty
  have size := congrArg length empty
  simp [framed] at size

end Framing

/-! ## Paths -/

abbrev Name := List UInt8

abbrev Path := List Name

def separator : UInt8 := 47

/-- A path as it is spelled. -/
def spell (path : Path) : List UInt8 := [separator].intercalate path

/-- A name that an entry of a directory can have. -/
def Proper (name : Name) : Prop := name ≠ [] ∧ separator ∉ name

theorem spell_inj {path path' : Path} (proper : ∀ name ∈ path, Proper name) (proper' : ∀ name ∈ path', Proper name)
    (same : spell path = spell path') : path = path' := by
  have nonempty {name : Name} {path : Path} (proper : Proper name) : spell (name :: path) ≠ [] := by
    cases path <;> simp [spell, intercalate, proper.1]
  cases path with
  | nil =>
    cases path' with
    | nil => rfl
    | cons name path' => exact absurd same.symm (nonempty (proper' name mem_cons_self))
  | cons name path =>
    cases path' with
    | nil => exact absurd same (nonempty (proper name mem_cons_self))
    | cons name' path' =>
      -- Splitting at the separator gives the names back.
      have first : (spell (name :: path)).splitOn separator = name :: path :=
        splitOn_intercalate separator (fun name mem => (proper name mem).2) (by simp)
      have second : (spell (name' :: path')).splitOn separator = name' :: path' :=
        splitOn_intercalate separator (fun name mem => (proper' name mem).2) (by simp)
      rw [← first, same, second]

/-! ## Trees -/

inductive Tree where
  | file (bytes : List UInt8)
  | dir (children : List (Name × Tree))

mutual

def Tree.encode (relative : Path) : Tree → List UInt8
  | .file bytes => framed (spell relative) ++ 70 :: framed bytes
  | .dir children => framed (spell relative) ++ 68 :: encodeAll relative children

def encodeAll (relative : Path) : List (Name × Tree) → List UInt8
  | [] => []
  | (name, tree) :: rest => tree.encode (relative ++ [name]) ++ encodeAll relative rest

end

mutual

/-- The names are those of entries, and every length can be written down. -/
def Tree.Encodable (relative : Path) : Tree → Prop
  | .file bytes => (spell relative).length < 2 ^ 64 ∧ bytes.length < 2 ^ 64
  | .dir children => (spell relative).length < 2 ^ 64 ∧ (children.map Prod.fst).Nodup ∧ EncodableAll relative children

def EncodableAll (relative : Path) : List (Name × Tree) → Prop
  | [] => True
  | (name, tree) :: rest => Proper name ∧ tree.Encodable (relative ++ [name]) ∧ EncodableAll relative rest

end

/-- What follows a tree is not one of its nodes. -/
def Ends (relative : Path) (rest : List UInt8) : Prop :=
  rest = [] ∨ ∃ path more, rest = framed (spell path) ++ more ∧ (∀ name ∈ path, Proper name) ∧ (spell path).length < 2 ^ 64 ∧
    ¬relative <+: path

section Encoding

variable {relative : Path} {rest rest' : List UInt8}

theorem encode_head (relative : Path) (tree : Tree) : ∃ tail, tree.encode relative = framed (spell relative) ++ tail := by
  cases tree with
  | file bytes => exact ⟨_, by rw [Tree.encode]⟩
  | dir children => exact ⟨_, by rw [Tree.encode]⟩

theorem Tree.Encodable.spelled {tree : Tree} (encodable : tree.Encodable relative) : (spell relative).length < 2 ^ 64 := by
  cases tree with
  | file bytes =>
    rw [Tree.Encodable] at encodable
    exact encodable.1
  | dir children =>
    rw [Tree.Encodable] at encodable
    exact encodable.1

theorem proper_snoc (proper : ∀ name ∈ relative, Proper name) {name : Name} (last : Proper name) :
    ∀ other ∈ relative ++ [name], Proper other := by
  intro other mem
  obtain inside | same := mem_append.mp mem
  · exact proper other inside
  · exact mem_singleton.mp same ▸ last

/-- What follows a child is its next sibling, or what follows the directory. -/
theorem ends_child {name : Name} {siblings : List (Name × Tree)} (proper : ∀ name ∈ relative, Proper name)
    (encodable : EncodableAll relative siblings) (fresh : name ∉ siblings.map Prod.fst) (ends : Ends relative rest) :
    Ends (relative ++ [name]) (encodeAll relative siblings ++ rest) := by
  cases siblings with
  | nil =>
    rw [encodeAll, nil_append]
    obtain none | ⟨path, more, shape, names, size, outside⟩ := ends
    · exact .inl none
    · exact .inr ⟨path, more, shape, names, size, fun inside => outside ((prefix_append _ _).trans inside)⟩
  | cons sibling siblings =>
    obtain ⟨other, tree⟩ := sibling
    rw [EncodableAll] at encodable
    obtain ⟨named, inner, -⟩ := encodable
    obtain ⟨tail, head⟩ := encode_head (relative ++ [other]) tree
    refine .inr ⟨relative ++ [other], tail ++ encodeAll relative siblings ++ rest, ?_, proper_snoc proper named, inner.spelled, ?_⟩
    · rw [encodeAll, head, append_assoc, append_assoc, append_assoc]
    · intro inside
      rw [prefix_append_right_inj, prefix_cons_iff] at inside
      obtain none | ⟨_, same, -⟩ := inside
      · cases none
      · exact fresh (by simp [(cons.inj same).1])

/-- A child does not start where its directory ends. -/
theorem not_ends {name : Name} {tree : Tree} (named : Proper name) (proper : ∀ name ∈ relative, Proper name)
    (encodable : tree.Encodable (relative ++ [name])) (ends : Ends relative rest) {behind : List UInt8} :
    rest ≠ tree.encode (relative ++ [name]) ++ behind := by
  intro same
  obtain ⟨tail, head⟩ := encode_head (relative ++ [name]) tree
  rw [head, append_assoc] at same
  obtain rfl | ⟨path, more, rfl, names, size, outside⟩ := ends
  · exact framed_ne_nil same.symm
  · obtain ⟨spelled, -⟩ := framed_append_inj size encodable.spelled same
    obtain rfl := spell_inj names (proper_snoc proper named) spelled
    exact outside (prefix_append _ _)

mutual

/-- **The encoding determines the tree.** -/
theorem Tree.encode_inj : ∀ {tree tree' : Tree} {relative : Path} {rest rest' : List UInt8},
    (∀ name ∈ relative, Proper name) → tree.Encodable relative → tree'.Encodable relative → Ends relative rest → Ends relative rest' →
      tree.encode relative ++ rest = tree'.encode relative ++ rest' → tree = tree' ∧ rest = rest'
  | .file bytes, tree', relative, rest, rest', proper, encodable, encodable', ends, ends', same => by
    cases tree' with
    | file bytes' =>
      rw [Tree.encode, Tree.encode, append_assoc, append_assoc] at same
      rw [Tree.Encodable] at encodable encodable'
      obtain ⟨-, behind⟩ := cons.inj (append_cancel_left same)
      obtain ⟨rfl, rfl⟩ := framed_append_inj encodable.2 encodable'.2 behind
      exact ⟨rfl, rfl⟩
    | dir children =>
      rw [Tree.encode, Tree.encode, append_assoc, append_assoc] at same
      exact absurd (cons.inj (append_cancel_left same)).1 (by decide)
  | .dir children, tree', relative, rest, rest', proper, encodable, encodable', ends, ends', same => by
    cases tree' with
    | file bytes =>
      rw [Tree.encode, Tree.encode, append_assoc, append_assoc] at same
      exact absurd (cons.inj (append_cancel_left same)).1 (by decide)
    | dir children' =>
      rw [Tree.encode, Tree.encode, append_assoc, append_assoc] at same
      rw [Tree.Encodable] at encodable encodable'
      obtain ⟨-, behind⟩ := cons.inj (append_cancel_left same)
      obtain ⟨-, distinct, all⟩ := encodable
      obtain ⟨-, distinct', all'⟩ := encodable'
      obtain ⟨rfl, rfl⟩ := encodeAll_inj proper distinct distinct' all all' ends ends' behind
      exact ⟨rfl, rfl⟩

theorem encodeAll_inj : ∀ {children children' : List (Name × Tree)} {relative : Path} {rest rest' : List UInt8},
    (∀ name ∈ relative, Proper name) → (children.map Prod.fst).Nodup → (children'.map Prod.fst).Nodup →
      EncodableAll relative children → EncodableAll relative children' → Ends relative rest → Ends relative rest' →
        encodeAll relative children ++ rest = encodeAll relative children' ++ rest' → children = children' ∧ rest = rest'
  | [], children', relative, rest, rest', proper, distinct, distinct', all, all', ends, ends', same => by
    cases children' with
    | nil =>
      rw [encodeAll, nil_append, nil_append] at same
      exact ⟨rfl, same⟩
    | cons child children' =>
      rw [encodeAll, encodeAll, nil_append, append_assoc] at same
      rw [EncodableAll] at all'
      exact absurd same (not_ends all'.1 proper all'.2.1 ends)
  | (name, tree) :: children, children', relative, rest, rest', proper, distinct, distinct', all, all', ends, ends', same => by
    rw [EncodableAll] at all
    obtain ⟨named, encodable, all⟩ := all
    cases children' with
    | nil =>
      rw [encodeAll, encodeAll, nil_append, append_assoc] at same
      exact absurd same.symm (not_ends named proper encodable ends')
    | cons child children' =>
      obtain ⟨name', tree'⟩ := child
      rw [EncodableAll] at all'
      obtain ⟨named', encodable', all'⟩ := all'
      rw [encodeAll, encodeAll, append_assoc, append_assoc] at same
      -- The paths at the front are the same, and so are the names.
      obtain ⟨tail, head⟩ := encode_head (relative ++ [name]) tree
      obtain ⟨tail', head'⟩ := encode_head (relative ++ [name']) tree'
      have fronts := same
      rw [head, head', append_assoc, append_assoc] at fronts
      obtain ⟨spelled, -⟩ := framed_append_inj encodable.spelled encodable'.spelled fronts
      have paths := spell_inj (proper_snoc proper named) (proper_snoc proper named') spelled
      obtain rfl : name = name' := by simpa using paths
      have fresh := (nodup_cons.mp distinct).1
      have fresh' := (nodup_cons.mp distinct').1
      obtain ⟨rfl, behind⟩ := Tree.encode_inj (proper_snoc proper named) encodable encodable' (ends_child proper all fresh ends)
        (ends_child proper all' fresh' ends') same
      obtain ⟨rfl, rfl⟩ := encodeAll_inj proper (nodup_cons.mp distinct).2 (nodup_cons.mp distinct').2 all all' ends ends' behind
      exact ⟨rfl, rfl⟩

end

end Encoding

/-! ## Trees as listings -/

inductive Item where
  | dir
  | file (bytes : List UInt8)
  deriving DecidableEq

/-- The entries below some directory, by their paths. -/
abbrev Listing := List (Path × Item)

def Listing.lookup (listing : Listing) (path : Path) : Option Item := (listing.find? fun entry => entry.1 = path).map Prod.snd

/-- The names in a directory. -/
def Listing.childNames (listing : Listing) (path : Path) : List Name :=
  listing.filterMap fun entry => if entry.1 ≠ [] ∧ entry.1.dropLast = path then entry.1.getLast? else none

mutual

def Tree.entries (relative : Path) : Tree → Listing
  | .file bytes => [(relative, .file bytes)]
  | .dir children => (relative, .dir) :: entriesAll relative children

def entriesAll (relative : Path) : List (Name × Tree) → Listing
  | [] => []
  | (name, tree) :: rest => tree.entries (relative ++ [name]) ++ entriesAll relative rest

end

mutual

/-- A listing has a tree at a path. -/
def Tree.Listed (listing : Listing) (relative : Path) : Tree → Prop
  | .file bytes => listing.lookup relative = some (.file bytes)
  | .dir children => listing.lookup relative = some .dir ∧ listing.childNames relative = children.map Prod.fst ∧
      ListedAll listing relative children

def ListedAll (listing : Listing) (relative : Path) : List (Name × Tree) → Prop
  | [] => True
  | (name, tree) :: rest => tree.Listed listing (relative ++ [name]) ∧ ListedAll listing relative rest

end

/-- No entry is at a path or below it. -/
def Listing.Clear (listing : Listing) (relative : Path) : Prop := ∀ entry ∈ listing, ¬relative <+: entry.1

section Listings

variable {listing before after : Listing} {relative : Path} {name : Name}

mutual

theorem entries_below : ∀ (tree : Tree) (relative : Path), ∀ entry ∈ tree.entries relative, relative <+: entry.1
  | .file bytes, relative, entry, mem => by
    rw [Tree.entries] at mem
    obtain rfl := mem_singleton.mp mem
    exact prefix_rfl
  | .dir children, relative, entry, mem => by
    rw [Tree.entries] at mem
    obtain rfl | inside := mem_cons.mp mem
    · exact prefix_rfl
    · obtain ⟨name, -, below⟩ := entriesAll_below children relative entry inside
      exact (prefix_append _ _).trans below

theorem entriesAll_below : ∀ (children : List (Name × Tree)) (relative : Path), ∀ entry ∈ entriesAll relative children,
    ∃ name ∈ children.map Prod.fst, relative ++ [name] <+: entry.1
  | [], relative, entry, mem => by
    rw [entriesAll] at mem
    cases mem
  | (name, tree) :: rest, relative, entry, mem => by
    rw [entriesAll] at mem
    obtain here | later := mem_append.mp mem
    · exact ⟨name, by simp, entries_below tree _ entry here⟩
    · obtain ⟨other, listed, below⟩ := entriesAll_below rest relative entry later
      exact ⟨other, mem_cons_of_mem _ listed, below⟩

end

theorem Listing.Clear.append (clear : before.Clear relative) (clear' : after.Clear relative) : (before ++ after).Clear relative := by
  intro entry mem
  exact (mem_append.mp mem).elim (clear entry) (clear' entry)

theorem Listing.Clear.below (clear : listing.Clear relative) : listing.Clear (relative ++ [name]) := by
  intro entry mem inside
  exact clear entry mem ((prefix_append _ _).trans inside)

theorem snoc_prefix_snoc {other : Name} {path : Path} (below : relative ++ [name] <+: path) (below' : relative ++ [other] <+: path) :
    name = other := by
  have same := prefix_of_prefix_length_le below below' (by simp)
  have same := List.IsPrefix.eq_of_length same (by simp)
  simpa using same

/-- The siblings of a child are not below it. -/
theorem siblings_clear {siblings : List (Name × Tree)} (fresh : name ∉ siblings.map Prod.fst) :
    Listing.Clear (entriesAll relative siblings) (relative ++ [name]) := by
  intro entry mem inside
  obtain ⟨other, listed, below⟩ := entriesAll_below siblings relative entry mem
  exact fresh (snoc_prefix_snoc inside below ▸ listed)

theorem tree_clear {tree : Tree} {other : Name} (apart : name ≠ other) :
    Listing.Clear (tree.entries (relative ++ [other])) (relative ++ [name]) := by
  intro entry mem inside
  exact apart (snoc_prefix_snoc inside (entries_below tree _ entry mem))

theorem lookup_clear (clear : before.Clear relative) : (before ++ listing).lookup relative = listing.lookup relative := by
  unfold Listing.lookup
  rw [find?_append, find?_eq_none.mpr ?_, Option.none_or]
  intro entry mem
  simp only [decide_eq_true_eq]
  exact fun same => clear entry mem (same ▸ prefix_rfl)

theorem lookup_cons (item : Item) : Listing.lookup ((relative, item) :: listing) relative = some item := by
  simp [Listing.lookup]

theorem childNames_append (first second : Listing) (path : Path) :
    (first ++ second).childNames path = first.childNames path ++ second.childNames path := filterMap_append

theorem childNames_clear (clear : listing.Clear relative) : listing.childNames relative = [] := by
  unfold Listing.childNames
  rw [filterMap_eq_nil_iff]
  intro entry mem
  rw [if_neg]
  rintro ⟨-, rfl⟩
  exact clear entry mem (List.dropLast_prefix _)

/-- Of a child, only its own entry is in the directory. -/
theorem childNames_tree (tree : Tree) : Listing.childNames (tree.entries (relative ++ [name])) relative = [name] := by
  have own (item : Item) (below : Listing) (deep : ∀ entry ∈ below, ∃ other, relative ++ [name] ++ [other] <+: entry.1) :
      Listing.childNames ((relative ++ [name], item) :: below) relative = [name] := by
    have rest : below.childNames relative = [] := by
      unfold Listing.childNames
      rw [filterMap_eq_nil_iff]
      intro entry mem
      obtain ⟨other, inside⟩ := deep entry mem
      rw [if_neg]
      rintro ⟨-, rfl⟩
      have size := inside.length_le
      simp only [length_append, length_singleton, length_dropLast] at size
      omega
    unfold Listing.childNames at rest ⊢
    rw [filterMap_cons, rest]
    simp
  cases tree with
  | file bytes =>
    rw [Tree.entries]
    exact own _ [] fun _ mem => nomatch mem
  | dir children =>
    rw [Tree.entries]
    refine own _ _ fun entry mem => ?_
    obtain ⟨other, -, below⟩ := entriesAll_below children _ entry mem
    exact ⟨other, below⟩

theorem childNames_all (children : List (Name × Tree)) :
    Listing.childNames (entriesAll relative children) relative = children.map Prod.fst := by
  induction children with
  | nil => rw [entriesAll]; rfl
  | cons child rest ih =>
    obtain ⟨name, tree⟩ := child
    rw [entriesAll, childNames_append, childNames_tree, ih]
    rfl

mutual

/-- Among the entries of other trees, a listing has a tree where its entries are. -/
theorem listed_entries : ∀ (tree : Tree) {relative : Path} {before after : Listing}, tree.Encodable relative →
    before.Clear relative → after.Clear relative → tree.Listed (before ++ (tree.entries relative ++ after)) relative
  | .file bytes, relative, before, after, encodable, clear, clear' => by
    rw [Tree.Listed, Tree.entries, lookup_clear clear]
    exact lookup_cons _
  | .dir children, relative, before, after, encodable, clear, clear' => by
    rw [Tree.Encodable] at encodable
    rw [Tree.Listed, Tree.entries]
    refine ⟨?_, ?_, ?_⟩
    · rw [lookup_clear clear]
      exact lookup_cons _
    · have own : Listing.childNames [(relative, .dir)] relative = [] := by
        have apart : ¬(relative ≠ [] ∧ relative.dropLast = relative) := by
          rintro ⟨nonempty, same⟩
          have size := congrArg length same
          have positive := length_pos_iff.mpr nonempty
          rw [length_dropLast] at size
          omega
        simp only [Listing.childNames, filterMap_cons, if_neg apart, filterMap_nil]
      have split : before ++ (((relative, Item.dir) :: entriesAll relative children) ++ after) =
          before ++ ([(relative, Item.dir)] ++ (entriesAll relative children ++ after)) := rfl
      rw [split, childNames_append, childNames_append, childNames_append, childNames_clear clear, childNames_clear clear', own,
        childNames_all, append_nil, nil_append, nil_append]
    · have own : ∀ name ∈ children.map Prod.fst, Listing.Clear (before ++ [(relative, .dir)]) (relative ++ [name]) := by
        intro name mem
        refine clear.below.append fun entry own inside => ?_
        obtain rfl := mem_singleton.mp own
        have size := inside.length_le
        simp only [length_append, length_singleton] at size
        omega
      have all := listedAll_entries children encodable.2.1 encodable.2.2 own fun name mem => clear'.below
      simpa using all

theorem listedAll_entries : ∀ (children : List (Name × Tree)) {relative : Path} {before after : Listing},
    (children.map Prod.fst).Nodup → EncodableAll relative children →
      (∀ name ∈ children.map Prod.fst, before.Clear (relative ++ [name])) →
      (∀ name ∈ children.map Prod.fst, after.Clear (relative ++ [name])) →
        ListedAll (before ++ (entriesAll relative children ++ after)) relative children
  | [], relative, before, after, distinct, encodable, clear, clear' => by
    rw [ListedAll]
    exact trivial
  | (name, tree) :: rest, relative, before, after, distinct, encodable, clear, clear' => by
    obtain ⟨fresh, distinct⟩ := nodup_cons.mp distinct
    rw [EncodableAll] at encodable
    obtain ⟨-, inner, encodable⟩ := encodable
    rw [ListedAll, entriesAll, append_assoc]
    refine ⟨listed_entries tree inner (clear name mem_cons_self) ?_, ?_⟩
    · exact (siblings_clear fresh).append (clear' name mem_cons_self)
    · rw [← append_assoc]
      refine listedAll_entries rest distinct encodable (fun other mem => ?_) fun other mem => clear' other (mem_cons_of_mem _ mem)
      have apart : other ≠ name := fun same => fresh (same ▸ mem)
      exact (clear other (mem_cons_of_mem _ mem)).append (tree_clear apart)

end

end Listings

end RootCx.FileTree

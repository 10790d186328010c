import RootCx.ApprovedActions.Artifacts

/-! # What a digest stands for

The walk sees a tree and hashes its encoding, which determines the tree.  The copy that it makes
has the same tree without links, so a walk of the copy hashes the same bytes.
-/

namespace RootCx.ApprovedActions

open RootCx.Text RootCx.FileTree List Except

/-! ## The tree of a directory -/

mutual

/-- What there is at a path, with links resolved and the names of a directory in order. -/
def Holds (disk : Disk) (path : Path) : Tree → Prop
  | .file bytes => ∃ resolved, disk.canonicalize path = .ok resolved ∧ disk.metadata resolved = .ok (.file bytes)
  | .dir children => ∃ resolved entries, disk.canonicalize path = .ok resolved ∧ disk.metadata resolved = .ok (.dir entries) ∧
      children.map Prod.fst = entries.sorted ∧ HoldsAll disk resolved children

def HoldsAll (disk : Disk) (resolved : Path) : List (Name × Tree) → Prop
  | [] => True
  | (name, tree) :: rest => Holds disk (resolved ++ [name]) tree ∧ HoldsAll disk resolved rest

end

/-- The resolved tree of a directory. -/
def Resolved (disk : Disk) (directory : Path) (tree : Tree) : Prop :=
  ∃ root, disk.canonicalize directory = .ok root ∧ Holds disk root tree

/-- The walk goes on at a path. -/
structure Enters (disk : Disk) (root path : Path) (parents : List Path) (resolved : Path) : Prop where
  canonical : disk.canonicalize path = .ok resolved
  inside : root <+: resolved
  acyclic : resolved ∉ parents
  shallow : parents.length ≤ 64

mutual

/-- The tree that the walk sees at a path. -/
def Seen (disk : Disk) (root path relative : Path) (parents : List Path) : Tree → Prop
  | .file bytes => ∃ resolved, Enters disk root path parents resolved ∧ disk.metadata resolved = .ok (.file bytes) ∧
      toStr relative = .ok (spell relative) ∧ readFile bytes = .ok bytes
  | .dir children => ∃ resolved entries, Enters disk root path parents resolved ∧ disk.metadata resolved = .ok (.dir entries) ∧
      toStr relative = .ok (spell relative) ∧ children.map Prod.fst = entries.sorted ∧
      SeenAll disk root resolved relative (parents ++ [resolved]) children

def SeenAll (disk : Disk) (root resolved relative : Path) (parents : List Path) : List (Name × Tree) → Prop
  | [] => True
  | (name, tree) :: rest => Seen disk root (resolved ++ [name]) (relative ++ [name]) parents tree ∧
      SeenAll disk root resolved relative parents rest

end

section Trees

variable {disk : Disk}

mutual

theorem holds_unique : ∀ {tree tree' : Tree} {path : Path}, Holds disk path tree → Holds disk path tree' → tree = tree'
  | .file bytes, tree', path, holds, holds' => by
    rw [Holds] at holds
    obtain ⟨resolved, canonical, content⟩ := holds
    cases tree' with
    | file bytes' =>
      rw [Holds] at holds'
      obtain ⟨resolved', canonical', content'⟩ := holds'
      cases canonical.symm.trans canonical'
      rw [Node.file.inj (ok.inj (content.symm.trans content'))]
    | dir children =>
      rw [Holds] at holds'
      obtain ⟨resolved', entries, canonical', content', -⟩ := holds'
      cases canonical.symm.trans canonical'
      exact nomatch ok.inj (content.symm.trans content')
  | .dir children, tree', path, holds, holds' => by
    rw [Holds] at holds
    obtain ⟨resolved, entries, canonical, content, names, all⟩ := holds
    cases tree' with
    | file bytes' =>
      rw [Holds] at holds'
      obtain ⟨resolved', canonical', content'⟩ := holds'
      cases canonical.symm.trans canonical'
      exact nomatch ok.inj (content.symm.trans content')
    | dir children' =>
      rw [Holds] at holds'
      obtain ⟨resolved', entries', canonical', content', names', all'⟩ := holds'
      cases canonical.symm.trans canonical'
      obtain rfl := Node.dir.inj (ok.inj (content.symm.trans content'))
      rw [holdsAll_unique (names.trans names'.symm) all all']

theorem holdsAll_unique : ∀ {children children' : List (Name × Tree)} {resolved : Path},
    children.map Prod.fst = children'.map Prod.fst → HoldsAll disk resolved children → HoldsAll disk resolved children' →
      children = children'
  | [], children', resolved, names, all, all' => (map_eq_nil_iff.mp names.symm).symm
  | (name, tree) :: children, children', resolved, names, all, all' => by
    cases children' with
    | nil => cases names
    | cons child children' =>
      obtain ⟨name', tree'⟩ := child
      obtain ⟨same, others⟩ := cons.inj names
      obtain rfl : name = name' := same
      rw [HoldsAll] at all all'
      rw [holds_unique all.1 all'.1, holdsAll_unique others all.2 all'.2]

end

mutual

theorem seen_holds : ∀ {tree : Tree} {root path relative : Path} {parents : List Path},
    Seen disk root path relative parents tree → Holds disk path tree
  | .file bytes, root, path, relative, parents, seen => by
    rw [Seen] at seen
    rw [Holds]
    obtain ⟨resolved, enters, content, -⟩ := seen
    exact ⟨resolved, enters.canonical, content⟩
  | .dir children, root, path, relative, parents, seen => by
    rw [Seen] at seen
    rw [Holds]
    obtain ⟨resolved, entries, enters, content, -, names, all⟩ := seen
    exact ⟨resolved, entries, enters.canonical, content, names, seenAll_holds all⟩

theorem seenAll_holds : ∀ {children : List (Name × Tree)} {root resolved relative : Path} {parents : List Path},
    SeenAll disk root resolved relative parents children → HoldsAll disk resolved children
  | [], root, resolved, relative, parents, all => by
    rw [HoldsAll]
    exact trivial
  | (name, tree) :: children, root, resolved, relative, parents, all => by
    rw [SeenAll] at all
    rw [HoldsAll]
    exact ⟨seen_holds all.1, seenAll_holds all.2⟩

end

theorem Entries.sorted_perm (entries : Entries) : entries.sorted.Perm entries.names := mergeSort_perm _ _

theorem Entries.sorted_nodup (entries : Entries) : entries.sorted.Nodup := entries.sorted_perm.nodup_iff.mpr entries.distinct

theorem Entries.sorted_proper (entries : Entries) : ∀ name ∈ entries.sorted, Proper name :=
  fun name mem => entries.proper name (entries.sorted_perm.mem_iff.mp mem)

theorem Entries.sorted_again {entries again : Entries} (same : again.names = entries.sorted) : again.sorted = entries.sorted := by
  unfold Entries.sorted at same ⊢
  rw [same]
  apply mergeSort_of_pairwise
  apply pairwise_mergeSort
  · intro x y z below above
    simp only [decide_eq_true_eq] at below above ⊢
    exact List.le_trans below above
  · intro x y
    simpa using List.le_total x y

theorem toStr_ok {relative : Path} {name : List UInt8} (spelled : toStr relative = .ok name) :
    name = spell relative ∧ (spell relative).length < 2 ^ 64 := by
  unfold toStr MAX_LEN at spelled
  split at spelled
  · cases spelled
  · split at spelled
    · cases spelled
      exact ⟨rfl, by omega⟩
    · cases spelled

theorem readFile_ok {bytes read : List UInt8} (done : readFile bytes = .ok read) : read = bytes ∧ bytes.length < 2 ^ 64 := by
  unfold readFile MAX_LEN at done
  split at done
  · cases done
  · cases done
    exact ⟨rfl, by omega⟩

mutual

theorem seen_encodable : ∀ {tree : Tree} {root path relative : Path} {parents : List Path},
    Seen disk root path relative parents tree → tree.Encodable relative
  | .file bytes, root, path, relative, parents, seen => by
    rw [Seen] at seen
    rw [Tree.Encodable]
    obtain ⟨resolved, -, -, spelled, read⟩ := seen
    exact ⟨(toStr_ok spelled).2, (readFile_ok read).2⟩
  | .dir children, root, path, relative, parents, seen => by
    rw [Seen] at seen
    rw [Tree.Encodable]
    obtain ⟨resolved, entries, -, -, spelled, names, all⟩ := seen
    exact ⟨(toStr_ok spelled).2, names ▸ entries.sorted_nodup, seenAll_encodable (names ▸ entries.sorted_proper) all⟩

theorem seenAll_encodable : ∀ {children : List (Name × Tree)} {root resolved relative : Path} {parents : List Path},
    (∀ name ∈ children.map Prod.fst, Proper name) → SeenAll disk root resolved relative parents children → EncodableAll relative children
  | [], root, resolved, relative, parents, proper, all => by
    rw [EncodableAll]
    exact trivial
  | (name, tree) :: children, root, resolved, relative, parents, proper, all => by
    rw [SeenAll] at all
    rw [EncodableAll]
    exact ⟨proper name mem_cons_self, seen_encodable all.1,
      seenAll_encodable (fun other mem => proper other (mem_cons_of_mem _ mem)) all.2⟩

end

end Trees

/-! ## What is written -/

/-- A path is free below a directory that is there.  The staging directory itself is made before
    the walk. -/
inductive Opens : Listing → Listing → Path → Prop where
  | root : Opens [] [([], .dir)] []
  | child {base : Listing} {front : Path} {name : Name} (parents : ∀ path, path <+: front → base.lookup path = some .dir)
      (clear : base.Clear (front ++ [name])) : Opens base base (front ++ [name])

section Writing

variable {base staging : Listing} {relative : Path}

theorem lookup_append_some {later : Listing} {path : Path} {item : Item} (found : base.lookup path = some item) :
    (base ++ later).lookup path = some item := by
  obtain ⟨entry, first, rfl⟩ := Option.map_eq_some_iff.mp found
  simp [Listing.lookup, find?_append, first]

theorem lookup_of_clear (clear : base.Clear relative) : base.lookup relative = none := by
  unfold Listing.lookup
  rw [Option.map_eq_none_iff, find?_eq_none]
  intro entry mem
  simp only [decide_eq_true_eq]
  exact fun same => clear entry mem (same ▸ prefix_rfl)

theorem createDirAll_opens (opens : Opens base staging relative) : createDirAll staging relative = .ok (base ++ [(relative, .dir)]) := by
  cases opens with
  | root => rfl
  | @child _ front name parents clear =>
    unfold createDirAll
    -- Its parents are there.
    have there : ∀ paths : List Path, (∀ path ∈ paths, path <+: front) → paths.foldlM createDir base = .ok base := by
      intro paths
      induction paths with
      | nil => exact fun _ => rfl
      | cons path paths ih =>
        intro above
        have held : createDir base path = .ok base := by rw [createDir, parents path (above path mem_cons_self)]
        rw [foldlM_cons, held]
        exact ih fun other mem => above other (mem_cons_of_mem _ mem)
    have inits : (front ++ [name]).inits = front.inits ++ [front ++ [name]] := by simp [inits_append]
    rw [inits, foldlM_append, there _ fun path mem => (mem_inits _ _).mp mem]
    show foldlM createDir base [front ++ [name]] = _
    rw [foldlM_cons, createDir, lookup_of_clear clear]
    rfl

theorem writeFile_opens {bytes : List UInt8} {written : Listing} (opens : Opens base staging relative)
    (wrote : writeFile staging relative bytes = .ok written) : written = base ++ [(relative, .file bytes)] := by
  cases opens with
  | root => cases wrote
  | @child _ front name parents clear =>
    unfold writeFile at wrote
    split at wrote
    · cases wrote
    · split at wrote
      · cases wrote
      · cases wrote
        have kept : base.filter (fun entry => entry.1 ≠ front ++ [name]) = base := by
          rw [filter_eq_self]
          intro entry mem
          simp only [ne_eq, decide_eq_true_eq]
          exact fun same => clear entry mem (same ▸ prefix_rfl)
        rw [kept]

theorem parents_of_opens (opens : Opens base staging relative) :
    ∀ path, path <+: relative → Listing.lookup (base ++ [(relative, .dir)]) path = some .dir := by
  cases opens with
  | root =>
    intro path above
    rw [prefix_nil.mp above]
    rfl
  | @child _ front name parents clear =>
    intro path above
    obtain rfl | above := prefix_concat_iff.mp above
    · rw [lookup_clear clear]
      exact lookup_cons _
    · exact lookup_append_some (parents path above)

theorem clear_of_opens (opens : Opens base staging relative) (name : Name) :
    Listing.Clear (base ++ [(relative, .dir)]) (relative ++ [name]) := by
  have own : Listing.Clear [(relative, .dir)] (relative ++ [name]) := by
    intro entry mem inside
    obtain rfl := mem_singleton.mp mem
    have size := inside.length_le
    simp only [length_append, length_singleton] at size
    omega
  cases opens with
  | root => exact own
  | child parents clear => exact clear.below.append own

end Writing

/-! ## The walk -/

/-- A step of the walk hashes and copies what a tree stands for. -/
structure Follows (relative : Path) (bytes : List UInt8) (entries : Listing) (progress progress' : Progress) : Prop where
  hashed : progress'.hashed = progress.hashed ++ bytes
  plain : progress.staging = none → progress'.staging = none
  copied : ∀ base staging, progress.staging = some staging → Opens base staging relative → progress'.staging = some (base ++ entries)

section Walks

variable {display : Path → Text} {disk : Disk} {root : Path}

theorem copy_ok {progress progress' : Progress} {step : Listing → Except Text Listing} (done : progress.copy step = .ok progress') :
    progress'.hashed = progress.hashed ∧ (progress.staging = none → progress'.staging = none) ∧
      ∀ staging, progress.staging = some staging → ∃ staging', step staging = .ok staging' ∧ progress'.staging = some staging' := by
  unfold Progress.copy at done
  cases here : progress.staging with
  | none =>
    rw [here] at done
    cases done
    exact ⟨rfl, fun _ => here, nofun⟩
  | some staging =>
    rw [here] at done
    obtain ⟨staging', stepped, done⟩ := bind_eq_ok.mp done
    obtain rfl := pure_eq_ok.mp done
    exact ⟨rfl, nofun, fun _ same => ⟨staging', Option.some.inj same ▸ stepped, rfl⟩⟩

/-- The loop over the names of a directory. -/
theorem fold_ok {fuel : Nat} {resolved relative : Path} {parents : List Path}
    (step : ∀ {name : Name} {progress progress' : Progress},
      visit display disk root fuel (resolved ++ [name]) (relative ++ [name]) parents progress = .ok progress' →
        ∃ tree, Seen disk root (resolved ++ [name]) (relative ++ [name]) parents tree ∧
          Follows (relative ++ [name]) (tree.encode (relative ++ [name])) (tree.entries (relative ++ [name])) progress progress')
    {names : List Name} (distinct : names.Nodup) {progress progress' : Progress}
    (done : names.foldlM (fun progress name =>
      visit display disk root fuel (resolved ++ [name]) (relative ++ [name]) parents progress) progress = .ok progress') :
    ∃ children, children.map Prod.fst = names ∧ SeenAll disk root resolved relative parents children ∧
      progress'.hashed = progress.hashed ++ encodeAll relative children ∧ (progress.staging = none → progress'.staging = none) ∧
      ∀ base, progress.staging = some base → (∀ path, path <+: relative → base.lookup path = some .dir) →
        (∀ name ∈ names, base.Clear (relative ++ [name])) → progress'.staging = some (base ++ entriesAll relative children) := by
  induction names generalizing progress with
  | nil =>
    obtain rfl := pure_eq_ok.mp done
    refine ⟨[], rfl, ?_, ?_, id, fun base same _ _ => ?_⟩
    · rw [SeenAll]
      exact trivial
    · rw [encodeAll, append_nil]
    · rw [entriesAll, append_nil, same]
  | cons name names ih =>
    rw [foldlM_cons] at done
    obtain ⟨middle, first, done⟩ := bind_eq_ok.mp done
    obtain ⟨tree, seen, follows⟩ := step first
    obtain ⟨fresh, distinct⟩ := nodup_cons.mp distinct
    obtain ⟨children, rfl, all, hashed, plain, copied⟩ := ih distinct done
    refine ⟨(name, tree) :: children, rfl, ?_, ?_, fun none => plain (follows.plain none), fun base same parents clear => ?_⟩
    · rw [SeenAll]
      exact ⟨seen, all⟩
    · rw [hashed, follows.hashed, encodeAll, append_assoc]
    · have written := follows.copied base base same (.child parents (clear name mem_cons_self))
      have parents' : ∀ path, path <+: relative → (base ++ tree.entries (relative ++ [name])).lookup path = some .dir :=
        fun path above => lookup_append_some (parents path above)
      rw [copied _ written parents' fun other mem => ?_, entriesAll, append_assoc]
      have apart : other ≠ name := fun same => fresh (same ▸ mem)
      exact (clear other (mem_cons_of_mem _ mem)).append (tree_clear apart)

/-- What a walk that ends has seen, it has hashed and copied. -/
theorem visit_ok {fuel : Nat} {path relative : Path} {parents : List Path} {progress progress' : Progress}
    (done : visit display disk root fuel path relative parents progress = .ok progress') :
    ∃ tree, Seen disk root path relative parents tree ∧
      Follows relative (tree.encode relative) (tree.entries relative) progress progress' := by
  induction fuel generalizing path relative parents progress progress' with
  | zero => cases done
  | succ fuel ih =>
    rw [visit] at done
    obtain ⟨resolved, canonical, done⟩ := bind_eq_ok.mp done
    split at done
    · cases done
    · rename_i allowed
      have enters : Enters disk root path parents resolved := by
        simp only [not_or, not_not] at allowed
        exact ⟨canonical, allowed.1, allowed.2.1, by omega⟩
      obtain ⟨node, content, done⟩ := bind_eq_ok.mp done
      obtain ⟨name, spelled, done⟩ := bind_eq_ok.mp done
      obtain ⟨rfl, -⟩ := toStr_ok spelled
      dsimp only at done
      cases node with
      | dir entries =>
        obtain ⟨opened, made, done⟩ := bind_eq_ok.mp done
        obtain ⟨hashed, plain, created⟩ := copy_ok made
        obtain ⟨children, names, all, hashed', plain', copied⟩ := fold_ok (fun done => ih done) entries.sorted_nodup done
        refine ⟨.dir children, ?_, ?_, fun none => plain' (plain none), fun base staging same opens => ?_⟩
        · rw [Seen]
          exact ⟨resolved, entries, enters, content, spelled, names, all⟩
        · rw [hashed', hashed, Tree.encode]
          simp [Progress.update]
        · obtain ⟨staging', stepped, same'⟩ := created staging same
          obtain ⟨-, -, stepped⟩ := bind_eq_ok.mp stepped
          cases stepped.symm.trans (createDirAll_opens opens)
          rw [copied _ same' (parents_of_opens opens) fun name _ => clear_of_opens opens name, Tree.entries]
          simp
      | file bytes =>
        obtain ⟨read, reading, copying⟩ := bind_eq_ok.mp done
        obtain ⟨rfl, -⟩ := readFile_ok reading
        obtain ⟨hashed, plain, wrote⟩ := copy_ok copying
        refine ⟨.file read, ?_, ?_, plain, fun base staging same opens => ?_⟩
        · rw [Seen]
          exact ⟨resolved, enters, content, spelled, reading⟩
        · rw [hashed, Tree.encode]
          simp [Progress.update]
        · obtain ⟨staging', stepped, same'⟩ := wrote staging same
          obtain ⟨-, -, stepped⟩ := bind_eq_ok.mp stepped
          rw [same', writeFile_opens opens stepped, Tree.entries]
      | other => cases done

mutual

/-- The walk gets through every tree that it sees. -/
theorem visit_seen : ∀ {tree : Tree} {fuel : Nat} {path relative : Path} {parents : List Path} (hashed : List UInt8),
    Seen disk root path relative parents tree → parents.length + fuel = 66 →
      visit display disk root fuel path relative parents ⟨hashed, none⟩ = .ok ⟨hashed ++ tree.encode relative, none⟩
  | .file bytes, fuel, path, relative, parents, hashed, seen, left => by
    rw [Seen] at seen
    obtain ⟨resolved, ⟨canonical, inside, acyclic, shallow⟩, content, spelled, read⟩ := seen
    obtain ⟨fuel, rfl⟩ : ∃ k, fuel = k + 1 := Nat.exists_eq_add_one_of_ne_zero (by omega)
    have allowed : ¬(¬root <+: resolved ∨ resolved ∈ parents ∨ parents.length > 64) := by
      simp only [not_or, not_not]
      exact ⟨inside, acyclic, by omega⟩
    rw [visit, Tree.encode, canonical]
    show (if _ then _ else _) = _
    rw [if_neg allowed, content]
    show (toStr relative >>= _) = _
    rw [spelled]
    show (readFile bytes >>= _) = _
    rw [read]
    show ok _ = _
    simp [Progress.update]
  | .dir children, fuel, path, relative, parents, hashed, seen, left => by
    rw [Seen] at seen
    obtain ⟨resolved, entries, ⟨canonical, inside, acyclic, shallow⟩, content, spelled, names, all⟩ := seen
    obtain ⟨fuel, rfl⟩ : ∃ k, fuel = k + 1 := Nat.exists_eq_add_one_of_ne_zero (by omega)
    have allowed : ¬(¬root <+: resolved ∨ resolved ∈ parents ∨ parents.length > 64) := by
      simp only [not_or, not_not]
      exact ⟨inside, acyclic, by omega⟩
    rw [visit, Tree.encode, canonical]
    show (if _ then _ else _) = _
    rw [if_neg allowed, content]
    show (toStr relative >>= _) = _
    rw [spelled]
    show foldlM _ (Progress.mk _ none) entries.sorted = _
    rw [← names, fold_seen _ all (by simp; omega)]
    simp [Progress.update]

theorem fold_seen : ∀ {children : List (Name × Tree)} {fuel : Nat} {resolved relative : Path} {parents : List Path} (hashed : List UInt8),
    SeenAll disk root resolved relative parents children → parents.length + fuel = 66 →
      (children.map Prod.fst).foldlM (fun progress name =>
        visit display disk root fuel (resolved ++ [name]) (relative ++ [name]) parents progress) ⟨hashed, none⟩ =
          .ok ⟨hashed ++ encodeAll relative children, none⟩
  | [], fuel, resolved, relative, parents, hashed, all, left => by
    rw [encodeAll, append_nil]
    rfl
  | (name, tree) :: children, fuel, resolved, relative, parents, hashed, all, left => by
    rw [SeenAll] at all
    rw [map_cons, foldlM_cons, visit_seen hashed all.1 left, encodeAll, ← append_assoc]
    exact fold_seen _ all.2 left

end

end Walks

/-! ## The walk of the copy -/

section Copies

variable {disk : Disk} {location : Location} {listing : Listing} {root : Path}

theorem drop_real (relative : Path) : (location.real ++ relative).drop location.real.length = relative := by simp

theorem canonicalize_copy {relative : Path} {item : Item} (found : listing.lookup relative = some item) :
    (copyDisk location listing).canonicalize (location.real ++ relative) = .ok (location.real ++ relative) := by
  have inside : location.real <+: location.real ++ relative := prefix_append _ _
  have there : location.real <+: location.real ++ relative ∧
      (listing.lookup ((location.real ++ relative).drop location.real.length)).isSome = true := by
    rw [drop_real, found]
    exact ⟨inside, rfl⟩
  by_cases same : location.real ++ relative = location.place
  · obtain equal | outside := location.outside
    · have empty : relative = [] := by simpa [equal] using same
      show (if _ then _ else _) = _
      rw [if_pos same, empty, append_nil]
    · exact absurd (same ▸ inside) outside
  · show (if _ then _ else _) = _
    rw [if_neg same, if_pos there]

theorem enters_copy {relative : Path} {parents parents' : List Path} {item : Item} (found : listing.lookup relative = some item)
    (depth : parents'.length = parents.length) (shallow : parents.length ≤ 64)
    (shorter : ∀ parent ∈ parents', parent.length < location.real.length + relative.length) :
    Enters (copyDisk location listing) location.real (location.real ++ relative) parents' (location.real ++ relative) where
  canonical := canonicalize_copy found
  inside := prefix_append _ _
  acyclic := by
    intro mem
    have size := shorter _ mem
    rw [length_append] at size
    omega
  shallow := by omega

mutual

/-- What the walk sees in the backend, it sees in the copy. -/
theorem seen_copy : ∀ {tree : Tree} {path relative : Path} {parents parents' : List Path},
    Seen disk root path relative parents tree → tree.Listed listing relative → parents'.length = parents.length →
      (∀ parent ∈ parents', parent.length < location.real.length + relative.length) →
        Seen (copyDisk location listing) location.real (location.real ++ relative) relative parents' tree
  | .file bytes, path, relative, parents, parents', seen, listed, depth, shorter => by
    rw [Seen] at seen ⊢
    rw [Tree.Listed] at listed
    obtain ⟨resolved, enters, content, spelled, read⟩ := seen
    refine ⟨_, enters_copy listed depth enters.shallow shorter, ?_, spelled, read⟩
    simp only [copyDisk, drop_real, listed]
  | .dir children, path, relative, parents, parents', seen, listed, depth, shorter => by
    rw [Seen] at seen ⊢
    rw [Tree.Listed] at listed
    obtain ⟨resolved, entries, enters, content, spelled, names, all⟩ := seen
    obtain ⟨found, childNames, listed⟩ := listed
    have same : listing.childNames relative = entries.sorted := childNames.trans names
    have proper : (listing.childNames relative).Nodup ∧ ∀ name ∈ listing.childNames relative, name ≠ [] ∧ separator ∉ name := by
      rw [same]
      exact ⟨entries.sorted_nodup, entries.sorted_proper⟩
    refine ⟨_, ⟨listing.childNames relative, proper.1, proper.2⟩, enters_copy found depth enters.shallow shorter, ?_, spelled, ?_, ?_⟩
    · simp only [copyDisk, drop_real, found]
      rw [dif_pos proper]
    · rw [names]
      exact (Entries.sorted_again same).symm
    · refine seenAll_copy all listed (by simp [depth]) fun parent mem => ?_
      obtain above | self := mem_append.mp mem
      · have size := shorter parent above
        omega
      · rw [mem_singleton.mp self, length_append]
        omega

theorem seenAll_copy : ∀ {children : List (Name × Tree)} {resolved relative : Path} {parents parents' : List Path},
    SeenAll disk root resolved relative parents children → ListedAll listing relative children → parents'.length = parents.length →
      (∀ parent ∈ parents', parent.length < location.real.length + relative.length + 1) →
        SeenAll (copyDisk location listing) location.real (location.real ++ relative) relative parents' children
  | [], resolved, relative, parents, parents', all, listed, depth, shorter => by
    rw [SeenAll]
    exact trivial
  | (name, tree) :: children, resolved, relative, parents, parents', all, listed, depth, shorter => by
    rw [SeenAll] at all ⊢
    rw [ListedAll] at listed
    refine ⟨?_, seenAll_copy all.2 listed.2 depth shorter⟩
    rw [append_assoc]
    refine seen_copy all.1 listed.1 depth fun parent mem => ?_
    have size := shorter parent mem
    simp only [length_append, length_singleton]
    omega

end

end Copies

/-! ## Digests -/

section Digests

variable {display : Path → Text} {digest : Digest} {disk disk' : Disk} {directory directory' : Path} {found : Text}

theorem fingerprint_ok (done : fingerprint display digest disk directory = .ok found) :
    ∃ root tree, disk.canonicalize directory = .ok root ∧ Seen disk root root [] [] tree ∧ found = digest.hex (tree.encode []) := by
  obtain ⟨root, canonical, done⟩ := bind_eq_ok.mp (mapError_eq_ok.mp done)
  obtain ⟨progress, walked, done⟩ := bind_eq_ok.mp done
  obtain rfl := pure_eq_ok.mp done
  obtain ⟨tree, seen, follows⟩ := visit_ok walked
  exact ⟨root, tree, canonical, seen, by rw [follows.hashed, nil_append]⟩

theorem fingerprint_seen {root : Path} {tree : Tree} (canonical : disk.canonicalize directory = .ok root)
    (seen : Seen disk root root [] [] tree) : fingerprint display digest disk directory = .ok (digest.hex (tree.encode [])) := by
  unfold fingerprint
  rw [canonical]
  show Except.mapError _ (visit display disk root 66 root [] [] ⟨[], none⟩ >>= _) = _
  rw [visit_seen [] seen rfl]
  rfl

theorem resolved_iff {root : Path} {tree tree' : Tree} (canonical : disk.canonicalize directory = .ok root)
    (seen : Seen disk root root [] [] tree) : Resolved disk directory tree' ↔ tree' = tree := by
  constructor
  · rintro ⟨root', canonical', holds⟩
    cases canonical.symm.trans canonical'
    exact holds_unique holds (seen_holds seen)
  · rintro rfl
    exact ⟨root, canonical, seen_holds seen⟩

theorem same_tree (done : fingerprint display digest disk directory = .ok found)
    (done' : fingerprint display digest disk' directory' = .ok found) :
    ∃ tree, (∀ other, Resolved disk directory other ↔ other = tree) ∧ ∀ other, Resolved disk' directory' other ↔ other = tree := by
  obtain ⟨root, tree, canonical, seen, rfl⟩ := fingerprint_ok done
  obtain ⟨root', tree', canonical', seen', same⟩ := fingerprint_ok done'
  have bytes := digest.injective same
  have proper : ∀ name ∈ ([] : Path), Proper name := fun _ mem => nomatch mem
  obtain ⟨rfl, -⟩ : tree = tree' ∧ ([] : List UInt8) = [] :=
    Tree.encode_inj proper (seen_encodable seen) (seen_encodable seen') (.inl rfl) (.inl rfl) (by rw [bytes])
  exact ⟨tree, fun _ => resolved_iff canonical seen, fun _ => resolved_iff canonical' seen'⟩

/-- The copy of a backend has its digest. -/
theorem snapshot_ok {sealing : Sealing} {staging : Listing} (done : sealing.snapshot display digest found = .ok staging) :
    fingerprint display digest sealing.disk sealing.root = .ok found ∧
      fingerprint display digest (copyDisk sealing.destination staging) sealing.destination.place = .ok found := by
  obtain ⟨root, canonical, done⟩ := bind_eq_ok.mp done
  obtain ⟨progress, walked, done⟩ := bind_eq_ok.mp done
  obtain ⟨tree, seen, follows⟩ := visit_ok walked
  have hashed : progress.hashed = tree.encode [] := by rw [follows.hashed, nil_append]
  have copied : progress.staging = some (tree.entries []) := follows.copied _ _ rfl .root
  split at done
  · cases done
  · rename_i same
    obtain ⟨-, -, finished⟩ := bind_eq_ok.mp done
    obtain rfl := not_not.mp same
    obtain rfl := pure_eq_ok.mp finished
    rw [hashed, copied, Option.getD_some]
    refine ⟨fingerprint_seen canonical seen, fingerprint_seen (if_pos rfl) ?_⟩
    -- The whole listing is that of the tree.
    have listed := listed_entries tree (seen_encodable seen) (fun _ mem => nomatch mem : Listing.Clear [] [])
      (fun _ mem => nomatch mem : Listing.Clear [] [])
    rw [append_nil, nil_append] at listed
    have again : Seen (copyDisk sealing.destination _) _ (sealing.destination.real ++ []) [] [] tree :=
      seen_copy seen listed rfl fun _ mem => nomatch mem
    rwa [append_nil] at again

theorem verify_of_fingerprint (done : fingerprint display digest disk directory = .ok found) :
    verifyArtifact display digest disk directory found = .ok () := by
  unfold verifyArtifact
  rw [done]
  exact if_neg (not_not.mpr rfl)

end Digests

/-- **Sealed backends.**  The hashed bytes determine the resolved tree of a directory.  A seal that
    succeeds leaves an artifact that is verified by the expected digest, and a new one is a copy of
    the backend's own tree; a seal that fails leaves the artifacts as they were, and no staging
    directory but one that cannot be removed. -/
theorem sealed_artifacts {Revision : Type} [DecidableEq Revision] (display : Path → Text) (digest : Digest) :
    (∀ disk disk' directory directory' found, fingerprint display digest disk directory = .ok found →
      fingerprint display digest disk' directory' = .ok found →
        ∃ tree, (∀ other, Resolved disk directory other ↔ other = tree) ∧ ∀ other, Resolved disk' directory' other ↔ other = tree) ∧
    (∀ sealing (approved approved' : Approved Revision) revision expected,
      sealRevision display digest sealing approved revision expected = (.ok (), approved') →
        (approved.artifacts revision = none → fingerprint display digest sealing.disk sealing.root = .ok expected) ∧
        ∃ artifact, approved'.artifacts revision = some artifact ∧
          fingerprint display digest artifact.disk artifact.directory = .ok expected ∧
          verifyArtifact display digest artifact.disk artifact.directory expected = .ok ()) ∧
    (∀ sealing (approved approved' : Approved Revision) revision expected error,
      sealRevision display digest sealing approved revision expected = (.error error, approved') →
        approved'.artifacts = approved.artifacts ∧ (sealing.removed = true → approved' = approved)) := by
  refine ⟨fun _ _ _ _ _ => same_tree, ?succeeds, ?fails⟩
  case succeeds =>
    intro sealing approved approved' revision expected done
    unfold sealRevision at done
    cases held : approved.artifacts revision with
    | some artifact =>
      rw [held] at done
      cases printed : fingerprint display digest artifact.disk artifact.directory with
      | error error =>
        simp only [printed] at done
        cases done
      | ok found =>
        simp only [printed] at done
        obtain ⟨accepted, rfl⟩ := Prod.mk.inj done
        split at accepted
        · cases accepted
        · rename_i same
          obtain rfl := not_not.mp same
          exact ⟨nofun, artifact, held, printed, verify_of_fingerprint printed⟩
    | none =>
      rw [held] at done
      cases prepared : sealing.prepared with
      | error message =>
        simp only [prepared] at done
        cases done
      | ok _ =>
        simp only [prepared] at done
        cases copied : sealing.snapshot display digest expected with
        | error message =>
          simp only [copied] at done
          cases done
        | ok staging =>
          simp only [copied] at done
          obtain ⟨-, rfl⟩ := Prod.mk.inj done
          obtain ⟨own, copy⟩ := snapshot_ok copied
          exact ⟨fun _ => own, _, Function.update_self .., copy, verify_of_fingerprint copy⟩
  case fails =>
    intro sealing approved approved' revision expected error done
    unfold sealRevision at done
    cases held : approved.artifacts revision with
    | some artifact =>
      rw [held] at done
      cases printed : fingerprint display digest artifact.disk artifact.directory with
      | error error =>
        simp only [printed] at done
        obtain ⟨-, rfl⟩ := Prod.mk.inj done
        exact ⟨rfl, fun _ => rfl⟩
      | ok found =>
        simp only [printed] at done
        obtain ⟨-, rfl⟩ := Prod.mk.inj done
        exact ⟨rfl, fun _ => rfl⟩
    | none =>
      rw [held] at done
      cases prepared : sealing.prepared with
      | error message =>
        simp only [prepared] at done
        obtain ⟨-, rfl⟩ := Prod.mk.inj done
        exact ⟨rfl, fun _ => rfl⟩
      | ok _ =>
        simp only [prepared] at done
        cases copied : sealing.snapshot display digest expected with
        | error message =>
          simp only [copied] at done
          obtain ⟨-, rfl⟩ := Prod.mk.inj done
          cases removed : sealing.removed with
          | true => exact ⟨rfl, fun _ => rfl⟩
          | false => exact ⟨rfl, nofun⟩
        | ok staging =>
          simp only [copied] at done
          cases done

/-! ## A directory, and a link into it -/

/-- Every byte as a character. -/
def plainDigest : Digest where
  hex bytes := bytes.map fun byte => Char.ofNat byte.toNat
  injective := by
    refine map_injective_iff.mpr fun byte byte' same => ?_
    have numbers := congrArg Char.toNat same
    have small (byte : UInt8) : byte.toNat < 0xd800 := Nat.lt_trans byte.toNat_lt (by decide)
    rw [Char.toNat_ofNat, Char.toNat_ofNat, if_pos (.inl (small byte)), if_pos (.inl (small byte'))] at numbers
    exact UInt8.toNat_inj.mp numbers

def oneFile : Entries := ⟨[[102]], by decide, by simp [Proper, separator]⟩

def twoNames : Entries := ⟨[[100], [108]], by decide, by simp [Proper, separator]⟩

def linkedDisk : Disk where
  canonicalize path := .ok (if path = [[114], [108]] then [[114], [100], [102]] else path)
  metadata path := .ok (if path = [[114]] then .dir twoNames else if path = [[114], [100]] then .dir oneFile else .file [1])
  writable _ := .ok ()

def linkedSealing : Sealing := ⟨linkedDisk, [[114]], ⟨[[97]], [[97]], .inl rfl⟩, "staging", .ok (), .ok (), true⟩

theorem toStr_spelled {path : Path} (name : String) (short : (spell path).length < MAX_LEN)
    (spelled : ByteArray.mk (spell path).toArray = name.toByteArray) : toStr path = .ok (spell path) := by
  have valid : (ByteArray.mk (spell path).toArray).validateUTF8 = true :=
    ByteArray.validateUTF8_eq_true_iff.mpr (spelled ▸ name.isValidUTF8)
  rw [toStr, if_neg (Nat.not_le.mpr short), if_pos valid]

def linkedTree : Tree := .dir [([100], .dir [([102], .file [1])]), ([108], .file [1])]

/-- The step of a walk at the path of a file or of a directory. -/
theorem linked_step {fuel : Nat} {path resolved relative : Path} {parents : List Path} {progress : Progress} {node : Node}
    (canonical : linkedDisk.canonicalize path = .ok resolved) (content : linkedDisk.metadata resolved = .ok node)
    (inside : [[114]] <+: resolved ∧ resolved ∉ parents ∧ parents.length ≤ 64) (spelled : toStr relative = .ok (spell relative)) :
    visit (fun _ => []) linkedDisk [[114]] (fuel + 1) path relative parents progress = match node with
      | .dir entries => (((progress.update (framed (spell relative))).update [68]).copy (createDirAll · relative)) >>= fun progress =>
        entries.sorted.foldlM (fun progress name =>
          visit (fun _ => []) linkedDisk [[114]] fuel (resolved ++ [name]) (relative ++ [name]) (parents ++ [resolved]) progress) progress
      | .file bytes => readFile bytes >>= fun bytes =>
        ((progress.update (framed (spell relative))).update (70 :: framed bytes)).copy (writeFile · relative bytes)
      | .other => .error ("backend contains a non-file artifact: ".toList ++ []) := by
  have fine : ¬(¬[[114]] <+: resolved ∨ resolved ∈ parents ∨ parents.length > 64) := by
    rintro (outside | cyclic | deep)
    · exact outside inside.1
    · exact inside.2.1 cyclic
    · exact absurd inside.2.2 (Nat.not_le.mpr deep)
  rw [visit, canonical]
  show (if _ then _ else _) = _
  rw [if_neg fine, content, spelled]
  cases node <;> rfl

theorem linked_visit (staging : Option Listing) (fresh : staging = none ∨ staging = some [([], .dir)]) :
    ∃ progress, visit (fun _ => []) linkedDisk [[114]] 66 [[114]] [] [] ⟨[], staging⟩ = .ok progress ∧
      progress.hashed = linkedTree.encode [] := by
  have root : toStr [] = .ok (spell []) := toStr_spelled "" (by decide) rfl
  have d : toStr [[100]] = .ok (spell [[100]]) := toStr_spelled "d" (by decide) rfl
  have f : toStr [[100], [102]] = .ok (spell [[100], [102]]) := toStr_spelled "d/f" (by decide) rfl
  have l : toStr [[108]] = .ok (spell [[108]]) := toStr_spelled "l" (by decide) rfl
  have one : oneFile.sorted = [[102]] := mergeSort_singleton ..
  have two : twoNames.sorted = [[100], [108]] := mergeSort_of_pairwise (by decide)
  -- the names below the root, and the one below its directory
  have whole := @linked_step 65 [[114]] [[114]] [] [] ⟨[], staging⟩ (.dir twoNames) rfl rfl (by decide) root
  have first (progress : Progress) := @linked_step 64 [[114], [100]] [[114], [100]] [[100]] [[[114]]] progress (.dir oneFile) rfl rfl (by decide) d
  have second (progress : Progress) :=
    @linked_step 63 [[114], [100], [102]] [[114], [100], [102]] [[100], [102]] [[[114]], [[114], [100]]] progress (.file [1]) rfl rfl (by decide) f
  have third (progress : Progress) := @linked_step 64 [[114], [108]] [[114], [100], [102]] [[108]] [[[114]]] progress (.file [1]) rfl rfl (by decide) l
  rw [whole]
  simp only [two, foldlM_cons, foldlM_nil, nil_append, cons_append, first, one, second, third]
  obtain rfl | rfl := fresh <;> exact ⟨_, rfl, rfl⟩

theorem linked_sealed : ∃ approved,
    sealRevision (fun _ => []) plainDigest linkedSealing ⟨fun _ : Nat => none, []⟩ 0 (plainDigest.hex (linkedTree.encode [])) =
        (.ok (), approved) ∧
      (∃ tree, ∀ other, Resolved linkedDisk [[114]] other ↔ other = tree) ∧
      (∃ artifact, approved.artifacts 0 = some artifact ∧
        verifyArtifact (fun _ => []) plainDigest artifact.disk artifact.directory (plainDigest.hex (linkedTree.encode [])) = .ok ()) ∧
      (sealRevision (fun _ => []) plainDigest linkedSealing ⟨fun _ : Nat => none, []⟩ 0 []).2.artifacts = fun _ => none := by
  obtain ⟨trees, succeeds, fails⟩ := @sealed_artifacts Nat _ (fun _ => []) plainDigest
  obtain ⟨progress, walked, hashed⟩ := linked_visit none (.inl rfl)
  obtain ⟨copied, copying, same⟩ := linked_visit (some [([], .dir)]) (.inr rfl)
  have printed : fingerprint (fun _ => []) plainDigest linkedDisk [[114]] = .ok (plainDigest.hex (linkedTree.encode [])) := by
    rw [fingerprint]
    show Except.mapError _ (visit (fun _ => []) linkedDisk [[114]] 66 [[114]] [] [] ⟨[], none⟩ >>= _) = _
    rw [walked, ← hashed]
    rfl
  have snapshots (expected : Text) : linkedSealing.snapshot (fun _ => []) plainDigest expected =
      if plainDigest.hex copied.hashed ≠ expected then
        .error "backend changed since deployment; deploy it again before approving".toList
      else .ok (copied.staging.getD []) := by
    rw [Sealing.snapshot]
    show (visit (fun _ => []) linkedDisk [[114]] 66 [[114]] [] [] ⟨[], some [([], .dir)]⟩ >>= _) = _
    rw [copying]
    rfl
  have sealed : sealRevision (fun _ => []) plainDigest linkedSealing ⟨fun _ : Nat => none, []⟩ 0
      (plainDigest.hex (linkedTree.encode [])) = (.ok (), ⟨Function.update (fun _ => none) 0
        (some ⟨copyDisk linkedSealing.destination (copied.staging.getD []), linkedSealing.destination.place⟩), []⟩) := by
    rw [sealRevision]
    simp only [snapshots, same]
    rfl
  have refused : sealRevision (fun _ => []) plainDigest linkedSealing ⟨fun _ : Nat => none, []⟩ 0 [] =
      (.error (.worker "backend changed since deployment; deploy it again before approving".toList), ⟨fun _ => none, []⟩) := by
    have differs : plainDigest.hex copied.hashed ≠ [] := by
      rw [same]
      decide
    rw [sealRevision]
    simp only [snapshots, if_pos differs]
    rfl
  obtain ⟨tree, only, -⟩ := trees _ _ _ _ _ printed printed
  obtain ⟨-, artifact, placed, -, verified⟩ := succeeds _ _ _ _ _ sealed
  exact ⟨_, sealed, ⟨tree, only⟩, ⟨artifact, placed, verified⟩,
    (congrArg (fun run => run.2.artifacts) refused).trans (fails _ _ _ _ _ _ refused).1⟩

end RootCx.ApprovedActions

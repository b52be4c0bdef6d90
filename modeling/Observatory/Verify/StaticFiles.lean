import Observatory.Model.StaticFiles

/-!
# What the static routes reach

The path of `/assets` is put behind the directory as it comes.  As long as it never climbs above
where it starts, what is served lies in the directory of the assets; but nothing refuses a path that
climbs, and one that does reaches every file of the host (`assets_reach`).  `root_static` looks its
name up in a list of nine, and reaches nothing else (`rootStatic_reach`).
-/

namespace Observatory.StaticFiles

open FileTree (Name Node Files IsName Stays climb slash text splitOn_text notMem_text climb_forall)

namespace Host

variable {C : Type} {host : Host C} {path rest base p : Path} {c : C} {cacheControl cc : Option String}

/-- The directory of the assets below a base. -/
def assetsDir (base : Path) : Path := under base "assets".toList

theorem under_assets (base path : Path) :
    under base ("assets/".toList ++ path) = assetsDir base ++ slash :: path := by
  simp [under, assetsDir, slash]

/-- What is served stands below a base. -/
theorem serve_file (h : host.serve path cacheControl = .file c cc) :
    ∃ base ∈ bases, host.stat (under base path) = some (.file c) := by
  unfold serve at h
  split at h
  · rename_i p hfind
    obtain ⟨base, hbase, rfl⟩ := List.mem_map.1 (List.mem_of_find?_eq_some hfind)
    refine ⟨base, hbase, ?_⟩
    unfold fileResponse at h
    split at h
    · rename_i contents hstat
      cases h
      exact hstat
    · cases h
  · cases h

theorem stat_append (hp : p ≠ []) : host.stat (p ++ slash :: rest) =
    (host.tree.resolve host.cwd p).bind fun dir =>
      (host.tree.walk dir (rest.splitOn slash)).bind host.tree.node := by
  unfold stat Files.stat
  rw [Files.resolve_append hp, Option.bind_assoc]

theorem assetsDir_ne_nil : assetsDir base ≠ [] := by simp [assetsDir, under]

/-- **A path that stays** is served from the directory. -/
theorem assets_stays (h : host.assets path = .file c cc) (hstays : Stays 0 (path.splitOn slash)) :
    ∃ base ∈ bases, ∃ dir q, host.tree.resolve host.cwd (assetsDir base) = some dir ∧
      host.tree.node (dir ++ q) = some (.file c) := by
  obtain ⟨base, hbase, hstat⟩ := serve_file h
  rw [under_assets, stat_append assetsDir_ne_nil] at hstat
  obtain ⟨dir, hdir, hstat⟩ := Option.bind_eq_some_iff.1 hstat
  obtain ⟨at_, hwalk, hnode⟩ := Option.bind_eq_some_iff.1 hstat
  have hwalk' : host.tree.walk (dir ++ []) (path.splitOn slash) = some at_ := by
    rw [List.append_nil]
    exact hwalk
  obtain ⟨q, rfl⟩ := Files.walk_stays (q := []) hstays hwalk'
  exact ⟨base, hbase, dir, q, hdir, hnode⟩

/-! ## Climbing -/

/-- Nothing is below what is not there. -/
theorem pathExists_of_under (h : host.pathExists (p ++ slash :: rest) = true) (hp : p ≠ []) :
    host.pathExists p = true := by
  unfold pathExists at h ⊢
  rw [Bool.and_eq_true, decide_eq_true_iff, stat_append hp] at h
  obtain ⟨hnul, hsome⟩ := h
  obtain ⟨node, hnode⟩ := Option.isSome_iff_exists.1 hsome
  obtain ⟨dir, hdir, hnode⟩ := Option.bind_eq_some_iff.1 hnode
  obtain ⟨at_, hwalk, -⟩ := Option.bind_eq_some_iff.1 hnode
  have hisdir : host.tree.node dir = some .dir := by
    cases hparts : rest.splitOn slash with
    | nil => exact absurd hparts (List.splitOn_ne_nil slash rest)
    | cons part parts =>
      rw [hparts, Files.walk_cons] at hwalk
      obtain ⟨next, hmove, -⟩ := Option.bind_eq_some_iff.1 hwalk
      unfold Files.move at hmove
      split at hmove
      · assumption
      · cases hmove
  rw [Bool.and_eq_true, decide_eq_true_iff]
  refine ⟨fun hmem => hnul (List.mem_append_left _ hmem), ?_⟩
  unfold stat Files.stat
  rw [hdir, Option.bind_some, hisdir]
  rfl

/-- The path of a file, from the directory of the assets. -/
def pathTo (dir f : List Name) : Path := text (climb dir.length f)

/-- **A path that climbs** reaches the file. -/
theorem stat_pathTo {dir f : List Name} (hp : p ≠ [])
    (hdir : host.tree.resolve host.cwd p = some dir) (hisdir : host.tree.node dir = some .dir)
    (hf : host.tree.node f = some (.file c)) :
    host.stat (p ++ slash :: pathTo dir f) = some (.file c) := by
  have hsome : (host.tree.node f).isSome := by rw [hf]; rfl
  have hne : f ≠ [] := by
    rintro rfl
    rw [host.tree.root] at hf
    cases hf
  have hsplit : (pathTo dir f).splitOn slash = climb dir.length f := by
    refine splitOn_text (climb_forall (by decide) fun x hx => ?_) ?_
    · exact (Files.isName_of_isSome hsome x hx).no_slash
    · exact fun hnil => hne (List.append_eq_nil_iff.1 hnil).2
  rw [stat_append hp, hdir, Option.bind_some, hsplit, Files.walk_climb hisdir hsome,
    Option.bind_some, hf]

theorem nul_notMem_pathTo {dir f : List Name} (hf : (host.tree.node f).isSome) :
    '\x00' ∉ pathTo dir f :=
  notMem_text (climb_forall (by decide) fun x hx => (Files.isName_of_isSome hf x hx).no_nul)
    (by decide)

theorem pathExists_pathTo {dir f : List Name} (hexists : host.pathExists p = true) (hp : p ≠ [])
    (hdir : host.tree.resolve host.cwd p = some dir) (hisdir : host.tree.node dir = some .dir)
    (hf : host.tree.node f = some (.file c)) :
    host.pathExists (p ++ slash :: pathTo dir f) = true := by
  have hfile : (host.tree.node f).isSome := by rw [hf]; rfl
  unfold pathExists at hexists ⊢
  rw [Bool.and_eq_true, decide_eq_true_iff] at hexists ⊢
  refine ⟨fun hmem => ?_, by rw [stat_pathTo hp hdir hisdir hf]; rfl⟩
  rcases List.mem_append.1 hmem with hmem | hmem
  · exact hexists.1 hmem
  · rcases List.mem_cons.1 hmem with hslash | hmem
    · exact absurd hslash (by decide)
    · exact nul_notMem_pathTo hfile hmem

/-- The first base with a directory of assets. -/
def assetsBase (host : Host C) : Option Path := bases.find? (host.pathExists <| assetsDir ·)

/-- The loop over the bases stops at the first base with a directory of assets. -/
theorem assets_of_base (hbase : host.assetsBase = some base)
    (hthere : host.pathExists (assetsDir base ++ slash :: path) = true) :
    host.assets path = host.fileResponse (assetsDir base ++ slash :: path) none := by
  obtain ⟨-, before, after, hsplit, hbefore⟩ := List.find?_eq_some_iff_append.1 hbase
  have hfind : (bases.map (under · ("assets/".toList ++ path))).find? host.pathExists =
      some (under base ("assets/".toList ++ path)) := by
    rw [hsplit, List.map_append, List.map_cons]
    refine List.find?_eq_some_iff_append.2 ⟨by rw [under_assets]; exact hthere, _, _, rfl, ?_⟩
    intro p hp
    obtain ⟨base', hbase', rfl⟩ := List.mem_map.1 hp
    rw [under_assets]
    -- without its directory the earlier base has nothing below it either
    have hnone := hbefore base' hbase'
    rw [Bool.not_eq_true'] at hnone ⊢
    by_contra hsome
    rw [pathExists_of_under (Bool.not_eq_false _ ▸ hsome) assetsDir_ne_nil] at hnone
    cases hnone
  unfold assets serve
  rw [hfind]
  simp only
  rw [under_assets]

/-- **What `/assets` reaches** on a host without links on which all files may be read.  Whatever is
served by a path that never climbs above its start lies in a directory of the assets.  If the first
path of the assets that exists is a directory, every file of the host is served by some path. -/
theorem assets_reach (host : Host C) :
    (∀ path c cc, host.assets path = .file c cc → Stays 0 (path.splitOn slash) →
      ∃ base ∈ bases, ∃ dir q, host.tree.resolve host.cwd (assetsDir base) = some dir ∧
        host.tree.node (dir ++ q) = some (.file c)) ∧
    ∀ base, host.assetsBase = some base → host.stat (assetsDir base) = some .dir →
      ∀ f c, host.tree.node f = some (.file c) → ∃ path, host.assets path = .file c none := by
  refine ⟨fun path c cc => assets_stays, fun base hbase hisdir f c hf => ?_⟩
  obtain ⟨dir, hdir, hnode⟩ := Option.bind_eq_some_iff.1 hisdir
  have hexists : host.pathExists (assetsDir base) = true :=
    (List.find?_eq_some_iff_append.1 hbase).1
  have hthere := pathExists_pathTo hexists assetsDir_ne_nil hdir hnode hf
  refine ⟨pathTo dir f, ?_⟩
  rw [assets_of_base hbase hthere, fileResponse, stat_pathTo assetsDir_ne_nil hdir hnode hf]

/-- A container with a built page, and the settings beside the sources. -/
def container : Host String where
  tree := Files.ofEntries
    [([], .dir), (["srv".toList], .dir), (["srv".toList, "lumi".toList], .dir),
      (["srv", "lumi", ".env"].map String.toList, .file "JWT_SECRET=secret"),
      (["srv", "lumi", "apps"].map String.toList, .dir),
      (["srv", "lumi", "apps", "web"].map String.toList, .dir),
      (["srv", "lumi", "apps", "web", "dist"].map String.toList, .dir),
      (["srv", "lumi", "apps", "web", "dist", "assets"].map String.toList, .dir),
      (["srv", "lumi", "apps", "web", "dist", "assets", "app.js"].map String.toList, .file "js")]
    rfl (by unfold Files.Proper; decide)
  cwd := ["srv".toList, "lumi".toList]

theorem assets_reach_container :
    (∃ base ∈ bases, ∃ dir q, container.tree.resolve container.cwd (assetsDir base) = some dir ∧
      container.tree.node (dir ++ q) = some (.file "js")) ∧
    ∃ path, container.assets path = .file "JWT_SECRET=secret" none := by
  obtain ⟨hstays, hclimbs⟩ := assets_reach container
  refine ⟨hstays "app.js".toList "js" none (by decide) (by decide), ?_⟩
  exact hclimbs "apps/web/dist".toList (by decide) (by decide)
    (["srv", "lumi", ".env"].map String.toList) _ (by decide)

example : container.assets "../../../../.env".toList = .file "JWT_SECRET=secret" none := by decide

/-- **`root_static` reaches** the nine files below a base. -/
theorem rootStatic_reach (h : host.rootStatic path = .file c cc) :
    path ∈ allowed ∧ ∃ base ∈ bases, host.stat (under base path) = some (.file c) := by
  unfold rootStatic at h
  split at h
  · cases h
  · rename_i hallowed
    exact ⟨not_not.1 hallowed, serve_file h⟩

/-- `root` shows the text of one of two files. -/
theorem root_reach {readText : C → Option String} {t : String}
    (h : host.root readText = .html t) : ∃ c, readText c = some t ∧
      (host.stat candidate = some (.file c) ∨ host.stat distIndex = some (.file c)) := by
  unfold root at h
  split_ifs at h with hbuilt hcandidate
  all_goals
    split at h
    · rename_i c hstat
      cases ht : readText c with
      | none =>
        rw [ht] at h
        cases h
      | some t' =>
        rw [ht] at h
        cases h
        exact ⟨c, ht, by simp [hstat]⟩
    · cases h

end Host

end Observatory.StaticFiles

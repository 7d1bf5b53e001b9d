import CourtKernel.Linux.Runner
import CourtKernel.Linux.Tables
import CourtKernel.Linux.Spsc
import CourtKernel.Lib.Cells

/-!
# The ring files of a run

What `build_state` leaves behind: the tables, and a ring file for every corridor.

* `Building done` — the tables and the files after the corridors `done`; `buildState_spec` — a valid
  manifest ends with all of them.
* `ringFileName_eq_iff` — the name of a ring file keeps the last two components of the path, joined by a
  hyphen, and drops all others.  Two corridors can therefore share a file, and the second one truncates
  the ring of the first: `rings_collide`.
* `separate_rings` — exactly if no two paths end alike, every corridor has a file of its own, and what the
  courts do at one ring has no effect at another, however many of them there are and however they
  are scheduled.
-/

namespace CourtKernel

/-! ## What building leaves alone -/

namespace Runner

variable {host : Host} {r : Runner} {runDir : String}

/-- At most the file at `path` is another one. -/
def Elsewhere (path : String) (r r' : Runner) : Prop :=
  ∀ other, other ≠ path → r'.files.lookup other = r.files.lookup other

instance Elsewhere.refl {path : String} : Std.Refl (Elsewhere path) := ⟨fun _ _ _ => rfl⟩

instance Elsewhere.trans {path : String} :
    Trans (Elsewhere path) (Elsewhere path) (Elsewhere path) :=
  ⟨fun h h' other hne => (h' other hne).trans (h other hne)⟩

theorem onState_elsewhere {α : Type} {path : String} (x : Prog RootState α) :
    Keeps (Elsewhere path) (onState x) :=
  keeps_onState (fun _ _ _ _ => rfl) x

theorem io_elsewhere {path : String} : Keeps (Elsewhere path) (io host) :=
  keeps_io fun _ _ _ _ => rfl

/-- Creating a ring, whether it succeeds or not, is creating that ring only. -/
theorem createRing_elsewhere (path : String) (capacity slotSize : UInt32) :
    Keeps (Elsewhere path) (createRing host path capacity slotSize) := by
  refine .bind (.ofExcept _) fun ring => .bind io_elsewhere fun _ => .bind (.modify fun r => ?_)
    fun _ => .bind io_elsewhere fun _ => .modify fun r => ?_
  · exact fun other hne => Finmap.lookup_erase_ne hne
  · exact fun other hne => Finmap.lookup_insert_of_ne _ hne

theorem buildCorridor_elsewhere (corridor : CorridorManifest) :
    Keeps (Elsewhere (corridor.ringInfo runDir).path) (buildCorridor host runDir corridor) :=
  .bind (onState_elsewhere _) fun _ => .bind (createRing_elsewhere _ _ _) fun _ =>
    onState_elsewhere _

/-- A ring that was created is in its file, and the tables are as before. -/
theorem createRing_spec (path : String) (capacity slotSize : UInt32) :
    wp (createRing host path capacity slotSize)
      (fun _ r' => r'.state = r.state ∧ ∃ ring, SharedRing.create capacity slotSize = .ok ring ∧
        r'.files.lookup path = some ring)
      (fun _ _ => True) r := by
  rw [createRing, wp_bind, wp_ofExcept]
  refine ⟨fun ring hring => ?_, fun _ _ => trivial⟩
  rw [wp_bind]
  refine wp_io ?_ fun _ => trivial
  rw [wp_bind, wp_modify, wp_bind]
  refine wp_io ?_ fun _ => trivial
  exact (wp_modify _).2 ⟨rfl, ring, hring, Finmap.lookup_insert _⟩

/-! ## Names of ring files -/

/-- The components of a path that are not empty. -/
def components (path : List Char) : List (List Char) :=
  (path.splitOn '/').filter fun part => !part.isEmpty

theorem components_append (l m : List Char) :
    components (l ++ '/' :: m) = components l ++ components m := by
  rw [components, List.splitOn_append_cons_self, List.filter_append]
  rfl

theorem components_cons (m : List Char) : components ('/' :: m) = components m :=
  components_append [] m

theorem components_concat (l : List Char) : components (l ++ ['/']) = components l := by
  rw [components_append]
  exact List.append_nil _

theorem components_of_notMem {l : List Char} (hne : l ≠ []) (h : '/' ∉ l) : components l = [l] := by
  rw [components, List.splitOn_eq_singleton h]
  simp [hne]

/-- Only slashes have no components. -/
theorem components_eq_nil {l : List Char} (h : components l = []) : ∀ c ∈ l, (c == '/') = true := by
  by_cases hmem : '/' ∈ l
  · obtain ⟨l₁, l₂, rfl⟩ := List.append_of_mem hmem
    have hlen : l₁.length < (l₁ ++ '/' :: l₂).length ∧ l₂.length < (l₁ ++ '/' :: l₂).length := by
      simp only [List.length_append, List.length_cons]
      omega
    rw [components_append, List.append_eq_nil_iff] at h
    have h₁ := components_eq_nil h.1
    have h₂ := components_eq_nil h.2
    intro c hc
    rw [List.mem_append, List.mem_cons] at hc
    rcases hc with hc | rfl | hc
    · exact h₁ c hc
    · rfl
    · exact h₂ c hc
  · intro c hc
    have hne : l ≠ [] := List.ne_nil_of_mem hc
    rw [components_of_notMem hne hmem] at h
    cases h
termination_by l.length

/-- `trim_matches('/')` -/
def trimSlashes (l : List Char) : List Char := (l.dropWhile (· == '/')).rdropWhile (· == '/')

theorem components_dropWhile (l : List Char) : components (l.dropWhile (· == '/')) = components l := by
  induction l with
  | nil => rfl
  | cons c l ih =>
    by_cases hc : c = '/'
    · subst hc
      rw [List.dropWhile_cons_of_pos rfl, ih, components_cons]
    · rw [List.dropWhile_cons_of_neg (by simpa using hc)]

theorem components_rdropWhile (l : List Char) :
    components (l.rdropWhile (· == '/')) = components l := by
  induction l using List.reverseRecOn with
  | nil => rfl
  | append_singleton l c ih =>
    by_cases hc : c = '/'
    · subst hc
      rw [List.rdropWhile_concat_pos _ _ _ rfl, ih, components_concat]
    · rw [List.rdropWhile_concat_neg _ _ _ (by simpa using hc)]

theorem components_trimSlashes (l : List Char) : components (trimSlashes l) = components l := by
  rw [trimSlashes, components_rdropWhile, components_dropWhile]

/-- A slash that trimming leaves has a component on either side. -/
theorem components_of_mem_trimSlashes {l : List Char} (h : '/' ∈ trimSlashes l) :
    2 ≤ (components l).length := by
  obtain ⟨l₁, l₂, hsplit⟩ := List.append_of_mem h
  rw [← components_trimSlashes, hsplit, components_append, List.length_append]
  have hfirst : components l₁ ≠ [] := by
    intro hnil
    have hslash : (l₁ ++ '/' :: l₂).head? = some '/' := by
      cases l₁ with
      | nil => rfl
      | cons c l₁ => simpa using components_eq_nil hnil c List.mem_cons_self
    obtain ⟨rest, hrest⟩ : trimSlashes l <+: l.dropWhile (· == '/') := List.rdropWhile_prefix _ _
    have hhead := List.head?_dropWhile_not (· == '/') l
    rw [← hrest, hsplit, List.head?_append, hslash] at hhead
    cases hhead
  have hsecond : components l₂ ≠ [] := by
    intro hnil
    have hne : trimSlashes l ≠ [] := List.ne_nil_of_mem h
    apply List.rdropWhile_last_not _ _ hne
    have hlast : (trimSlashes l).getLast hne = ('/' :: l₂).getLast (List.cons_ne_nil _ _) := by
      simp only [hsplit]
      exact List.getLast_append_right _
    rw [show ((l.dropWhile (· == '/')).rdropWhile (· == '/')).getLast hne = _ from hlast]
    rcases List.mem_cons.1 (List.getLast_mem (List.cons_ne_nil '/' l₂)) with heq | hmem
    · rw [heq]
      rfl
    · exact components_eq_nil hnil _ hmem
  have h₁ := List.length_pos_iff.2 hfirst
  have h₂ := List.length_pos_iff.2 hsecond
  omega

/-- What is left of a path with at most one component is that component. -/
theorem trimSlashes_eq {l : List Char} (h : (components l).length < 2) :
    '/' ∉ trimSlashes l ∧ trimSlashes l = (components l).flatten := by
  have hslash : '/' ∉ trimSlashes l := fun hmem => by
    have := components_of_mem_trimSlashes hmem
    omega
  refine ⟨hslash, ?_⟩
  rw [← components_trimSlashes]
  by_cases hnil : trimSlashes l = []
  · rw [hnil]
    rfl
  · rw [components_of_notMem hnil hslash, List.flatten_singleton]

/-- The name of a ring file without its ending, by the components of the path from the last one on. -/
def stem : List (List Char) → List Char
  | y :: x :: _ => x ++ '-' :: y
  | [z] => z
  | [] => []

theorem stem_reverse {parts : List (List Char)} (h : parts.length ≥ 2) :
    parts[parts.length - 2] ++ '-' :: parts[parts.length - 1] = stem parts.reverse := by
  obtain ⟨dir, x, y, rfl⟩ : ∃ dir x y, parts = dir ++ [x, y] := by
    refine ⟨parts.take (parts.length - 2), parts[parts.length - 2], parts[parts.length - 1], ?_⟩
    conv_lhs => rw [← List.take_append_drop (parts.length - 2) parts]
    rw [List.append_cancel_left_eq, List.drop_eq_getElem_cons (by omega),
      List.drop_eq_getElem_cons (by omega), List.drop_eq_nil_of_le (by omega)]
    simp only [show parts.length - 2 + 1 = parts.length - 1 by omega]
  simp [stem]

theorem ringFileName_eq (path : String) :
    ringFileName path = String.ofList (stem (components path.toList).reverse) ++ ".ring" := by
  show String.ofList (if h : (components path.toList).length ≥ 2 then
      (components path.toList)[(components path.toList).length - 2] ++
        '-' :: (components path.toList)[(components path.toList).length - 1]
    else (trimSlashes path.toList).map fun c => if c = '/' then '-' else c) ++ ".ring" = _
  split
  · rename_i hlen
    rw [stem_reverse hlen]
  · rename_i hlen
    obtain ⟨hslash, htrim⟩ := trimSlashes_eq (Nat.not_le.1 hlen)
    have hkeep : (trimSlashes path.toList).map (fun c => if c = '/' then '-' else c) =
        trimSlashes path.toList := by
      conv_rhs => rw [← List.map_id (trimSlashes path.toList)]
      refine List.map_congr_left fun c hc => if_neg ?_
      rintro rfl
      exact hslash hc
    rw [hkeep, htrim]
    rcases hparts : components path.toList with _ | ⟨z, _ | ⟨y, rest⟩⟩
    · rfl
    · simp [stem]
    · simp [hparts] at hlen

/-- Two paths, by their components from the last one on, end alike: in the same two components, or in
components where the slash of one is a hyphen of the other. -/
def EndsAlike : List (List Char) → List (List Char) → Prop
  | y :: x :: _, y' :: x' :: _ => x = x' ∧ y = y' ∨
      (∃ v, x' = x ++ '-' :: v ∧ y = v ++ '-' :: y') ∨ ∃ v, x = x' ++ '-' :: v ∧ y' = v ++ '-' :: y
  | y :: x :: _, [z] => z = x ++ '-' :: y
  | [z], y :: x :: _ => z = x ++ '-' :: y
  | parts, parts' => parts = parts'

theorem append_hyphen_eq {x y x' y' : List Char} : x ++ '-' :: y = x' ++ '-' :: y' ↔
    x = x' ∧ y = y' ∨ (∃ v, x' = x ++ '-' :: v ∧ y = v ++ '-' :: y') ∨
      ∃ v, x = x' ++ '-' :: v ∧ y' = v ++ '-' :: y := by
  rw [List.append_eq_append_iff]
  constructor
  · rintro (⟨v, rfl, hv⟩ | ⟨v, rfl, hv⟩)
    · cases v with
      | nil => exact .inl ⟨(List.append_nil x).symm, (List.cons.inj hv).2⟩
      | cons c v =>
        obtain ⟨rfl, hy⟩ := List.cons.inj hv
        exact .inr (.inl ⟨v, rfl, hy⟩)
    · cases v with
      | nil => exact .inl ⟨List.append_nil x', (List.cons.inj hv).2.symm⟩
      | cons c v =>
        obtain ⟨rfl, hy⟩ := List.cons.inj hv
        exact .inr (.inr ⟨v, rfl, hy⟩)
  · rintro (⟨rfl, rfl⟩ | ⟨v, rfl, rfl⟩ | ⟨v, rfl, rfl⟩)
    · exact .inl ⟨[], by simp⟩
    · exact .inl ⟨'-' :: v, by simp⟩
    · exact .inr ⟨'-' :: v, by simp⟩

theorem stem_eq_iff {parts parts' : List (List Char)} (h : [] ∉ parts) (h' : [] ∉ parts') :
    stem parts = stem parts' ↔ EndsAlike parts parts' := by
  rcases parts with _ | ⟨y, _ | ⟨x, rest⟩⟩
  · rcases parts' with _ | ⟨y', _ | ⟨x', rest'⟩⟩
    · simp [stem, EndsAlike]
    · have hne : y' ≠ [] := fun heq => h' (by simp [heq])
      simp [stem, EndsAlike, hne]
    · simp [stem, EndsAlike]
  · rcases parts' with _ | ⟨y', _ | ⟨x', rest'⟩⟩
    · have hne : y ≠ [] := fun heq => h (by simp [heq])
      simp [stem, EndsAlike, hne]
    · simp [stem, EndsAlike]
    · simp [stem, EndsAlike]
  · rcases parts' with _ | ⟨y', _ | ⟨x', rest'⟩⟩
    · simp [stem, EndsAlike]
    · simp only [stem, EndsAlike]
      exact eq_comm
    · exact append_hyphen_eq

theorem nil_notMem_components (l : List Char) : [] ∉ (components l).reverse := by
  simp [components]

/-- Which paths have one ring file. -/
theorem ringFileName_eq_iff {path path' : String} : ringFileName path = ringFileName path' ↔
    EndsAlike (components path.toList).reverse (components path'.toList).reverse := by
  rw [ringFileName_eq, ringFileName_eq, ← stem_eq_iff (nil_notMem_components _) (nil_notMem_components _)]
  constructor
  · intro heq
    have hlists := congrArg String.toList heq
    simpa using hlists
  · intro heq
    rw [heq]

/-- No two paths of these corridors end alike. -/
def EndingsDiffer (corridors : List CorridorManifest) : Prop :=
  ∀ c ∈ corridors, ∀ c' ∈ corridors, c.path ≠ c'.path →
    ¬ EndsAlike (components c.path.toList).reverse (components c'.path.toList).reverse

/-- Different names are different files. -/
theorem joinPath_inj {dir name name' : String} : joinPath dir name = joinPath dir name' ↔
    name = name' := by
  unfold joinPath
  split
  · simp
  · simp

/-! ## Building -/

theorem EndingsDiffer.path_eq {corridors : List CorridorManifest} (h : EndingsDiffer corridors)
    {c c' : CorridorManifest} (hc : c ∈ corridors) (hc' : c' ∈ corridors)
    (heq : (c.ringInfo runDir).path = (c'.ringInfo runDir).path) : c.path = c'.path := by
  by_contra hne
  exact h c hc c' hc' hne (ringFileName_eq_iff.1 (joinPath_inj.1 heq))

/-- The tables and ring files after the corridors `done`. -/
structure Building (config : RootConfig) (done : List CorridorManifest) (r : Runner) : Prop where
  built : RootState.Built config.manifest.courtNames (done.map (·.path)) r.state
  bare : r.state.root.Bare
  caps : r.state.capsById = ∅
  rings : ∀ path info, r.state.ringInfo.lookup path = some info ↔
    ∃ corridor ∈ done, corridor.path = path ∧ corridor.ringInfo config.runDir = info
  files : EndingsDiffer config.manifest.corridors → ∀ corridor ∈ done, ∃ ring,
    SharedRing.create corridor.capacity corridor.slotSize = .ok ring ∧
      r.files.lookup (corridor.ringInfo config.runDir).path = some ring

variable {config : RootConfig} {done : List CorridorManifest}

theorem buildCorridor_spec (h : Building config done r) {corridor : CorridorManifest}
    (hvalid : corridor.Valid config.manifest.courtNames)
    (hmem : ∀ c ∈ done ++ [corridor], c ∈ config.manifest.corridors)
    (hnew : corridor.path ∉ done.map (·.path)) :
    wp (buildCorridor host config.runDir corridor)
      (fun _ r' => Building config (done ++ [corridor]) r') (fun _ _ => True) r := by
  rw [buildCorridor, wp_bind, wp_onState]
  refine wp_mono (wp_and (RootState.createCorridor_spec h.built h.bare hvalid hnew)
    (RootState.createCorridor_apart corridor r.state)) (fun _ st hst => ?_) fun _ _ _ => trivial
  obtain ⟨⟨hbuilt, hbare⟩, hapart⟩ := hst
  rw [wp_bind]
  refine wp_mono (wp_and (createRing_spec _ _ _) (createRing_elsewhere _ _ _ _))
    (fun _ r' hr' => ?_) fun _ _ _ => trivial
  obtain ⟨⟨hstate, ring, hring, hfile⟩, helse⟩ := hr'
  subst hstate
  rw [wp_onState, wp_modify]
  refine ⟨?_, ?_, ?_, fun path info => ?_, fun hdiffer c hc => ?_⟩
  · rw [List.map_append]
    exact hbuilt.congr rfl rfl rfl
  · exact hbare
  · exact hapart.capsById.trans h.caps
  · show (r'.state.ringInfo.insert corridor.path _).lookup path = some info ↔ _
    rw [HashMap.lookup_insert_ite, hapart.ringInfo]
    simp only [List.mem_append, List.mem_singleton, or_and_right, exists_or, exists_eq_left]
    split
    · rename_i hpath
      subst hpath
      rw [Option.some.injEq]
      refine ⟨fun hinfo => Or.inr ⟨rfl, hinfo⟩, fun hinfo => hinfo.elim (fun hold => ?_) And.right⟩
      obtain ⟨c, hc, hcpath, -⟩ := hold
      exact absurd (List.mem_map.2 ⟨c, hc, hcpath⟩) hnew
    · rename_i hpath
      rw [h.rings]
      exact (or_iff_left fun hinfo => hpath hinfo.1.symm).symm
  · rw [List.mem_append, List.mem_singleton] at hc
    rcases hc with hc | rfl
    · -- an older file has another name
      obtain ⟨ring', hring', hfile'⟩ := h.files hdiffer c hc
      refine ⟨ring', hring', (helse _ ?_).trans hfile'⟩
      intro heq
      have hpath := hdiffer.path_eq (hmem c (List.mem_append_left _ hc))
        (hmem corridor (List.mem_append_right _ (List.mem_singleton.2 rfl))) heq
      exact hnew (List.mem_map.2 ⟨c, hc, hpath⟩)
    · exact ⟨ring, hring, hfile⟩

/-- **After building a valid manifest.** -/
theorem buildState_spec (hv : Valid config.manifest config.policy)
    (hstate : r.state = .new config.policy) :
    wp (buildState host config) (fun _ r' => Building config config.manifest.corridors r')
      (fun _ _ => True) r := by
  rw [buildState, wp_bind]
  -- the courts
  have hcourts : wp (forM config.manifest.courts fun court => onState (RootState.createCourt court))
      (fun _ r' => Building config [] r') (fun _ _ => True) r := by
    refine wp_mono (wp_forM (I := fun (done : List CourtManifest) (r' : Runner) =>
      RootState.Built (done.map (·.name)) [] r'.state ∧ r'.state.root.Bare ∧
        RootState.Apart (.new config.policy) r'.state) ?_ fun done court rest hlist r' hI => ?_)
      (fun _ r' hI => ?_) fun _ _ he => he
    · rw [hstate]
      exact ⟨RootState.built_new _, HostedRoot.bare_new, rfl, rfl, rfl⟩
    · rw [wp_onState, List.map_append]
      refine wp_mono (wp_and (RootState.createCourt_spec hI.1 hI.2.1
        (RootState.key_not_mem_done hv.courts.2 hlist)) (RootState.createCourt_apart court r'.state))
        (fun _ st hst => ?_) fun _ _ he => he.1.elim
      exact ⟨hst.1.1, hst.1.2, Trans.trans hI.2.2 hst.2⟩
    · refine ⟨hI.1, hI.2.1, hI.2.2.capsById, fun path info => ?_, fun _ c hc => by cases hc⟩
      rw [hI.2.2.ringInfo]
      simp [RootState.new]
  refine wp_mono hcourts (fun _ r₁ h₁ => ?_) fun _ _ he => he
  rw [wp_bind]
  -- the corridors
  refine wp_mono (wp_forM (I := fun (done : List CorridorManifest) (r' : Runner) =>
    Building config done r') h₁ fun done corridor rest hlist r' hI => ?_) (fun _ r₂ h₂ => ?_)
    fun _ _ he => he
  · have hmem : ∀ c ∈ done ++ [corridor], c ∈ config.manifest.corridors := by
      intro c hc
      rw [hlist, ← List.singleton_append, ← List.append_assoc]
      exact List.mem_append_left _ hc
    exact buildCorridor_spec hI (hv.corridors corridor (hmem _ (by simp))) hmem
      (RootState.key_not_mem_done hv.paths hlist)
  · rw [wp_bind, wp_expect]
    refine ⟨fun first _ => ?_, fun _ => trivial⟩
    rw [wp_bind, wp_onState, wp_modify]
    refine wp_io ?_ fun _ => trivial
    exact ⟨h₂.built.congr rfl rfl rfl, h₂.bare, h₂.caps, h₂.rings, h₂.files⟩

/-! ## Courts at the rings -/

section

variable {ι : Type} [DecidableEq ι]

/-- A step of a producer or a consumer process at a ring file.  Without a ring nothing happens. -/
def clientStep (file : Option SharedRing) (pcs : Spsc.ProducerPc × Spsc.ConsumerPc)
    (act : Spsc.Act) :
    Option Spsc.Return × Option SharedRing × (Spsc.ProducerPc × Spsc.ConsumerPc) :=
  match file with
  | none => (none, none, pcs)
  | some ring =>
    let (result, next) := Spsc.step ⟨ring, pcs.1, pcs.2⟩ act
    (result, some next.ring, (next.producer, next.consumer))

/-- Pairs of a producer and a consumer, each at a ring file.  A pair whose one half never acts is a
single process, so these are any number of processes at any number of files. -/
def clients (file : ι → String) : Sharing ι String (Option SharedRing)
    (Spsc.ProducerPc × Spsc.ConsumerPc) Spsc.Act (Option Spsc.Return) :=
  ⟨file, clientStep⟩

/-- What the clients of some files get under a schedule, all idle at the start. -/
def clientLog (files : HashMap String SharedRing) (file : ι → String)
    (acts : List (ι × Spsc.Act)) : List ((ι × Spsc.Act) × Option Spsc.Return) :=
  let start : Sharing.State ι String (Option SharedRing) (Spsc.ProducerPc × Spsc.ConsumerPc) :=
    ⟨fun path => files.lookup path, fun _ => (.idle, .idle)⟩
  ((clients file).machine start).log start acts

/-- The clients of a file get what they would get without the clients of the other files. -/
theorem clientLog_filter (files : HashMap String SharedRing) (file : ι → String) (path : String)
    (acts : List (ι × Spsc.Act)) :
    (clientLog files file acts).filter (fun e => file e.1.1 = path) =
      clientLog files file (acts.filter fun a => file a.1 = path) :=
  Sharing.log_filter (S := clients file) path acts ⟨rfl, fun _ _ => rfl⟩ _

omit [DecidableEq ι] in
theorem alone_log {file : ι → String} {g : Option SharedRing}
    {t : Spsc.ProducerPc × Spsc.ConsumerPc} (ring₀ : SharedRing) (acts : List Spsc.Act) :
    ∀ s : Spsc.State, ((clients file).alone g t).log (some s.ring, (s.producer, s.consumer)) acts =
      (Spsc.machine ring₀).log s acts := by
  induction acts with
  | nil => intro s; rfl
  | cons a acts ih =>
    intro s
    rw [Machine.log_cons, Machine.log_cons]
    exact congrArg (List.cons _) (ih (Spsc.step s a).2)

/-- A pair that has a ring to itself runs as the ring's producer and consumer. -/
theorem clientLog_sole {files : HashMap String SharedRing} (file : ι → String) {i : ι}
    {ring : SharedRing} (hring : files.lookup (file i) = some ring)
    (hsole : ∀ j, file j = file i → j = i) (acts : List (ι × Spsc.Act)) :
    Sharing.entriesOf i (clientLog files file acts) =
      Spsc.history ring (Sharing.callsOf i acts) := by
  refine (Sharing.log_sole (S := clients file) hsole _ none (.idle, .idle) acts _).trans ?_
  show ((clients file).alone _ _).log (files.lookup (file i), _) _ = _
  rw [hring]
  exact alone_log ring _ (Spsc.start ring)

end

/-- Every corridor has a ring file of its own, and the rings do not affect each other. -/
structure SeparateRings (host : Host) (runDir : String) (corridors : List CorridorManifest)
    (r : Runner) : Prop where
  /-- Courts are told different files for different corridors. -/
  told : ∀ c ∈ corridors, r.state.ringInfo.lookup c.path = some (c.ringInfo runDir)
  distinct : ∀ c ∈ corridors, ∀ c' ∈ corridors, c ≠ c' →
    (c.ringInfo runDir).path ≠ (c'.ringInfo runDir).path
  /-- Whatever the state in which a corridor is built, and whether that succeeds or not, the file of
  every other corridor stays as it is. -/
  intact : ∀ c ∈ corridors, ∀ c' ∈ corridors, c ≠ c' → ∀ r₁ : Runner,
    (stateOf (buildCorridor host runDir c' r₁)).files.lookup (c.ringInfo runDir).path =
      r₁.files.lookup (c.ringInfo runDir).path
  /-- In the end every file has the ring that was created for its corridor. -/
  own : ∀ c ∈ corridors, ∃ ring, SharedRing.create c.capacity c.slotSize = .ok ring ∧
    r.files.lookup (c.ringInfo runDir).path = some ring
  /-- Under any schedule the clients of a corridor get what they would get if the clients of the
  other corridors did nothing. -/
  unaffected : ∀ {ι : Type} [DecidableEq ι] (corridor : ι → CorridorManifest),
    (∀ i, corridor i ∈ corridors) → ∀ c ∈ corridors, ∀ acts : List (ι × Spsc.Act),
    (clientLog r.files (fun i => ((corridor i).ringInfo runDir).path) acts).filter
        (fun e => corridor e.1.1 = c) =
      clientLog r.files (fun i => ((corridor i).ringInfo runDir).path)
        (acts.filter fun a => corridor a.1 = c)
  /-- A pair that is alone at its corridor receives what it sent there, in order. -/
  origin : ∀ {ι : Type} [DecidableEq ι] (corridor : ι → CorridorManifest),
    (∀ i, corridor i ∈ corridors) → ∀ i, (∀ j, corridor j = corridor i → j = i) →
    ∀ acts : List (ι × Spsc.Act),
    let log := Sharing.entriesOf i
      (clientLog r.files (fun i => ((corridor i).ringInfo runDir).path) acts)
    Steady (corridor i).capacity.toNat ((Spsc.published log).length + 1) →
      Spsc.received log <+: Spsc.published log

/-- **Separate corridors have separate rings** exactly if no two corridors of the manifest have paths
that end alike. -/
theorem separate_rings {manifest : ManifestFile} {policy : PolicyFile}
    {files : HashMap String SharedRing} (hv : validate manifest policy = .ok ())
    (hrun : buildState host ⟨runDir, manifest, policy⟩ (.new host policy files) = .ok () r) :
    SeparateRings host runDir manifest.corridors r ↔ EndingsDiffer manifest.corridors := by
  have hvalid := validate_eq_ok.1 hv
  have hspec : wp (buildState host ⟨runDir, manifest, policy⟩)
      (fun _ r' => Building ⟨runDir, manifest, policy⟩ manifest.corridors r') (fun _ _ => True)
      (.new host policy files) := buildState_spec hvalid rfl
  have hb := wp_ok hspec hrun
  constructor
  · intro hseparate c hc c' hc' hne halike
    refine hseparate.distinct c hc c' hc' (fun heq => hne (by rw [heq])) ?_
    exact joinPath_inj.2 (ringFileName_eq_iff.2 halike)
  intro hnames
  -- corridors with the same file are the same
  have hinj : ∀ c ∈ manifest.corridors, ∀ c' ∈ manifest.corridors,
      (c.ringInfo runDir).path = (c'.ringInfo runDir).path → c = c' := fun c hc c' hc' heq =>
    List.inj_on_of_nodup_map hvalid.paths hc hc' (hnames.path_eq hc hc' heq)
  refine ⟨fun c hc => ?_, fun c hc c' hc' hne heq => ?_, fun c hc c' hc' hne r₁ => ?_,
    hb.files hnames, fun corridor hmem c hc acts => ?_, fun corridor hmem i hsole acts => ?_⟩
  · exact (hb.rings _ _).2 ⟨c, hc, rfl, rfl⟩
  · exact hne (hinj c hc c' hc' heq)
  · exact (buildCorridor_elsewhere c').at_end r₁ _ fun heq => hne (hinj c hc c' hc' heq)
  · have hiff : ∀ i, corridor i = c ↔
        ((corridor i).ringInfo runDir).path = (c.ringInfo runDir).path :=
      fun i => ⟨fun h => by rw [h], hinj _ (hmem i) c hc⟩
    simp only [hiff]
    exact clientLog_filter r.files (fun i => ((corridor i).ringInfo runDir).path) _ acts
  · obtain ⟨ring, hring, hfile⟩ := hb.files hnames _ (hmem i)
    obtain ⟨hfresh, hcap, -⟩ := SharedRing.fresh_create hring
      (Nat.one_le_iff_ne_zero.2 fun h0 => (hvalid.corridors _ (hmem i)).capacity
        (UInt32.toNat_inj.1 h0))
    intro log hsteady
    have hlog : log = Spsc.history ring (Sharing.callsOf i acts) :=
      clientLog_sole (fun i => ((corridor i).ringInfo runDir).path) hfile
        (fun j heq => hsole j (hinj _ (hmem j) _ (hmem i) heq)) acts
    rw [← hcap, hlog] at hsteady
    have hqueue := (Spsc.run_refines hfresh _ hsteady).queue.takes_first
    rw [Spsc.takesOf_events, Spsc.putsOf_events, ← hlog] at hqueue
    exact hqueue

/-- A host where nobody connects. -/
def quietHost : Host := .scripted [] fun _ => ⟨some 0, ""⟩

theorem separate_rings_packet_rx : ∃ r,
    buildState quietHost ⟨"run", .builtinPacketRx, .builtinPacketRx⟩
      (.new quietHost .builtinPacketRx ∅) = .ok () r ∧
    SeparateRings quietHost "run" ManifestFile.builtinPacketRx.corridors r := by
  have hok : resultOf (buildState quietHost ⟨"run", .builtinPacketRx, .builtinPacketRx⟩
      (.new quietHost .builtinPacketRx ∅)) = .ok () := by decide +kernel
  have hrun := eq_ok_of_resultOf hok
  have hendings : EndingsDiffer ManifestFile.builtinPacketRx.corridors := by
    intro c hc c' hc' hne
    rw [List.mem_singleton.1 hc, List.mem_singleton.1 hc'] at hne
    exact absurd rfl hne
  exact ⟨_, hrun, (separate_rings (by decide) hrun).2 hendings⟩

/-- An app that sends to two network courts. -/
def twoNets : ManifestFile :=
  { ManifestFile.builtinPacketRx with
    courts := [⟨"app", .app⟩, ⟨"net0", .net⟩, ⟨"net1", .net⟩]
    corridors := [⟨"/court/net0/packet/rx", .sharedRing, "app", "net0", 64, 2048⟩,
      ⟨"/court/net1/packet/rx", .sharedRing, "app", "net1", 32, 2048⟩] }

/-- Both corridors are at `packet-rx.ring`.  The second ring replaces the first, and what is sent to
`net0` arrives at `net1`. -/
theorem rings_collide :
    validate twoNets .builtinPacketRx = .ok () ∧
    ∃ r, buildState quietHost ⟨"run", twoNets, .builtinPacketRx⟩
        (.new quietHost .builtinPacketRx ∅) = .ok () r ∧
      r.state.ringInfo.lookup "/court/net0/packet/rx" = some ⟨"run/packet-rx.ring", 64, 2048⟩ ∧
      r.state.ringInfo.lookup "/court/net1/packet/rx" = some ⟨"run/packet-rx.ring", 32, 2048⟩ ∧
      (r.files.lookup "run/packet-rx.ring").map (·.header.capacity) = some 32 ∧
      let log := clientLog r.files (fun _ : Fin 2 => "run/packet-rx.ring")
        ((0, .send (.new ⟨3, ⟨4⟩⟩) [7]) :: List.replicate 9 (0, .producer) ++
          (1, .recv (.new ⟨2, ⟨8⟩⟩)) :: List.replicate 10 (1, .consumer))
      Spsc.published (Sharing.entriesOf 1 log) = [] ∧
        Spsc.received (Sharing.entriesOf 1 log) = [[7]] :=
  ⟨by decide, _, eq_ok_of_resultOf (by decide +kernel), by decide +kernel, by decide +kernel,
    by decide +kernel, by decide +kernel, by decide +kernel⟩

end Runner

end CourtKernel

/-
Keys tell apart what has to be told apart.

# Reading a key backwards

A key is one text: the canonical text of the options, a colon, and a tail in
which anything may stand, colons and braces as well. It can be taken apart
again because the text of a plain value shows where it ends: of two texts that
agree, each begun by the text of a plain value, both values and all that
follows them agree (`text_append_inj`). That is read off the reader, which
makes of such a text the value and leaves the rest.

# What a key determines

So a key gives away the options that it was made of, and its tail
(`effectiveOptions_and_tail_of_build`), and nothing else goes into it
(`build_eq_iff`). Where files are named by their paths, the options give away
the file and all that was set for it (`request_of_mtime`); where they are
named from a source root, all but the file's own path (`options_of_checksum`).
Options are the values last set; in which order they were set and written over
one another is not kept (`Assembly.get?_options`).
-/
import TransformCache.CacheKey
import TransformCache.Proofs.Json.RoundTrip
import TransformCache.Proofs.Result

namespace TransformCache

-- =================================================================== texts

namespace Json

/-- The text of a plain value gives away the value, however deep it nests, and
where it ends. -/
theorem text_append_inj (L : Layout) (level : Nat) {x y : Json} (hx : x.Plain) (hy : y.Plain)
    {rest rest' : Bytes} (hrest : Closed rest) (hrest' : Closed rest')
    (h : text L level x ++ rest = text L level y ++ rest') : x = y ∧ rest = rest' := by
  -- room for the deeper of the two, so that neither text is refused
  let d := max x.depth y.depth
  have hreadx := reads_text L level d x rest hrest
  have hready := reads_text L level d y rest' hrest'
  rw [reread_of_plain d x hx, if_pos (Nat.le_max_left ..)] at hreadx
  rw [reread_of_plain d y hy, if_pos (Nat.le_max_right ..), ← h, hreadx] at hready
  simpa using hready

theorem compact_append_inj {x y : Json} (hx : x.Plain) (hy : y.Plain) {s t : String}
    (hs : Closed (Utf8.encode s)) (ht : Closed (Utf8.encode t))
    (h : x.compact ++ s = y.compact ++ t) : x = y ∧ s = t := by
  have hbytes := congrArg Utf8.encode h
  rw [Utf8.encode_append, Utf8.encode_append, encode_compact, encode_compact] at hbytes
  obtain ⟨hxy, hst⟩ := text_append_inj .compact 0 hx hy hs ht hbytes
  exact ⟨hxy, Utf8.encode_injective hst⟩

end Json

-- ================================================================= options

namespace EngineOptions

/-- Every option is plain. -/
def Plain (o : EngineOptions) : Prop := ∀ key value, o.get? key = some value → value.Plain

theorem plain_empty : Plain ∅ := fun _ _ h => by cases h

theorem Plain.insert {o : EngineOptions} (h : o.Plain) {value : Json} (hv : value.Plain)
    (key : String) : Plain (Keyed.insert o key value) := by
  intro other found hfound
  rw [Keyed.get?_insert] at hfound
  split at hfound
  · cases hfound
    exact hv
  · exact h other found hfound

theorem Plain.withFilename {o : EngineOptions} (h : o.Plain) (filename : String) :
    Plain (o.withFilename filename) :=
  h.insert (show (Json.string filename).Plain from trivial) filenameKey

theorem Plain.merged {o other : EngineOptions} (h : o.Plain) (hother : other.Plain) :
    Plain (o.merged other) := by
  have hmembers : ∀ m ∈ other.members, m.2.Plain := fun m hm =>
    hother m.1 m.2 (Members.find?_of_mem other.sorted hm)
  unfold EngineOptions.merged Keyed.overlay
  generalize other.members = members at hmembers
  induction members generalizing o with
  | nil => exact h
  | cons m rest ih =>
      exact ih (h.insert (hmembers m List.mem_cons_self) m.1) fun m hm =>
        hmembers m (List.mem_cons_of_mem _ hm)

/-- The text of plain options gives away the options and what follows it, if
that begins with a colon. -/
theorem canonical_append_inj {a b : EngineOptions} (ha : a.Plain) (hb : b.Plain) {s t : String}
    (h : a.canonical ++ (":" ++ s) = b.canonical ++ (":" ++ t)) : a = b ∧ s = t := by
  have hplain : ∀ o : EngineOptions, o.Plain → o.toJson.Plain := fun o ho =>
    ⟨o.sorted, Json.plainMembers_iff.2 fun m hm =>
      ho m.1 m.2 (Members.find?_of_mem o.sorted hm)⟩
  have hclosed : ∀ u : String, Json.Closed (Utf8.encode (":" ++ u)) := fun u => by
    rw [Utf8.encode_append]
    exact Json.closed_cons (by decide) _
  obtain ⟨hjson, hrest⟩ :=
    Json.compact_append_inj (hplain a ha) (hplain b hb) (hclosed s) (hclosed t) h
  have hlist := congrArg String.toList hrest
  rw [String.toList_append, String.toList_append] at hlist
  exact ⟨Keyed.ext (Json.object.inj hjson), String.toList_injective (List.append_cancel_left hlist)⟩

/-- Options that name their files alike named alike files. -/
theorem filename_of_withFilename {a b : EngineOptions} {p q : String}
    (h : a.withFilename p = b.withFilename q) : p = q := by
  have hget := congrArg (Keyed.get? · filenameKey) h
  simp only [withFilename, Keyed.get?_insert_self] at hget
  exact Json.string.inj (Option.some.inj hget)

/-- Options that are the same under one name are the same but for the name. -/
theorem erase_of_withFilename {a b : EngineOptions} {p q : String}
    (h : a.withFilename p = b.withFilename q) (p' q' : String) :
    (a.withFilename p').erase filenameKey = (b.withFilename q').erase filenameKey := by
  refine Keyed.ext_get? fun key => ?_
  have hget := congrArg (Keyed.get? · key) h
  simp only [withFilename, Keyed.get?_insert, Keyed.get?_erase] at hget ⊢
  by_cases hkey : filenameKey = key
  · rw [if_pos hkey, if_pos hkey]
  · simp only [if_neg hkey] at hget ⊢
    exact hget

-- ------------------------------------------------------- how they come about

/-- A way in which options come about: values are set, and options are written
over others. -/
inductive Assembly where
  | empty
  | set (before : Assembly) (name : String) (value : Json)
  | merged (before later : Assembly)

namespace Assembly

def options : Assembly → EngineOptions
  | .empty => ∅
  | .set before name value => before.options.insert name value
  | .merged before later => before.options.merged later.options

/-- The value that a name was given last. -/
def last? (name : String) : Assembly → Option Json
  | .empty => none
  | .set before other value => if other = name then some value else before.last? name
  | .merged before later => later.last? name <|> before.last? name

/-- Options hold the values that were given last, and nothing else. -/
theorem get?_options (a : Assembly) (name : String) : a.options.get? name = a.last? name := by
  induction a with
  | empty => rfl
  | set before other value ih => rw [options, last?, Keyed.get?_insert, ih]
  | merged before later ih ihlater =>
      rw [options, last?, EngineOptions.merged, Keyed.get?_overlay, ih, ihlater]

end Assembly

end EngineOptions

-- ==================================================================== keys

namespace CacheKey

variable {options options' : EngineOptions} {path path' : FilePath} {mode mode' : Mode}
  {version : String} {discriminator : Option String} {key : String}

theorem effectiveOptions_plain {effective : EngineOptions} (ho : options.Plain)
    (h : effectiveOptions options path mode = .ok effective) : effective.Plain := by
  cases mode with
  | mtime =>
      cases h
      exact ho
  | checksum root project =>
      obtain ⟨identity, -, rfl⟩ := map_eq_ok.1 h
      exact ho.withFilename identity

/-- A key gives away the options that it was made of, and its tail. -/
theorem effectiveOptions_and_tail_of_build {version' : String} {discriminator' : Option String}
    (ho : options.Plain) (ho' : options'.Plain)
    (h : build options path mode version discriminator = .ok key)
    (h' : build options' path' mode' version' discriminator' = .ok key) :
    (∃ effective, effectiveOptions options path mode = .ok effective ∧
        effectiveOptions options' path' mode' = .ok effective) ∧
      tail version discriminator = tail version' discriminator' := by
  obtain ⟨a, heff, hkey⟩ := map_eq_ok.1 h
  obtain ⟨b, heff', hkey'⟩ := map_eq_ok.1 h'
  have hsame := hkey.trans hkey'.symm
  simp only [String.append_assoc] at hsame
  obtain ⟨rfl, htail⟩ := EngineOptions.canonical_append_inj (effectiveOptions_plain ho heff)
    (effectiveOptions_plain ho' heff') hsame
  exact ⟨⟨a, heff, heff'⟩, htail⟩

/-- Files with the same key were keyed by the same options. -/
theorem effectiveOptions_of_build (ho : options.Plain) (ho' : options'.Plain)
    (h : build options path mode version discriminator = .ok key)
    (h' : build options' path' mode' version discriminator = .ok key) :
    ∃ effective, effectiveOptions options path mode = .ok effective ∧
      effectiveOptions options' path' mode' = .ok effective :=
  (effectiveOptions_and_tail_of_build ho ho' h h').1

/-- A key made of options with the file's path gives away both. -/
theorem request_of_mtime (ho : options.Plain) (ho' : options'.Plain)
    (h : build (options.withFilename path.text) path .mtime version discriminator = .ok key)
    (h' : build (options'.withFilename path'.text) path' .mtime version discriminator
      = .ok key) :
    path = path' ∧ options.withFilename path.text = options'.withFilename path'.text := by
  obtain ⟨effective, heff, heff'⟩ :=
    effectiveOptions_of_build (ho.withFilename _) (ho'.withFilename _) h h'
  cases heff
  have hsame := (Except.ok.inj heff').symm
  have htext := EngineOptions.filename_of_withFilename hsame
  exact ⟨by cases path; cases path'; exact congrArg FilePath.mk htext, hsame⟩

/-- A key made of a name from a source root gives away all options but the
file's path. -/
theorem options_of_checksum {root root' : FilePath} {project project' : String}
    (ho : options.Plain) (ho' : options'.Plain)
    (h : build options path (.checksum root project) version discriminator = .ok key)
    (h' : build options' path' (.checksum root' project') version discriminator = .ok key) :
    (options.withFilename path.text).erase EngineOptions.filenameKey
      = (options'.withFilename path'.text).erase EngineOptions.filenameKey := by
  obtain ⟨effective, heff, heff'⟩ := effectiveOptions_of_build ho ho' h h'
  obtain ⟨identity, -, hsame⟩ := map_eq_ok.1 heff
  obtain ⟨identity', -, hsame'⟩ := map_eq_ok.1 heff'
  exact EngineOptions.erase_of_withFilename (hsame.trans hsame'.symm) _ _

-- ========================================================= main statement

/-- The options that a key stands for, name by name: those that were given or,
where files are named from a source root, those with the file's name from there
in place of any other. -/
inductive Effective (given : EngineOptions) (path : FilePath) : Mode → EngineOptions → Prop
  | mtime : Effective given path .mtime given
  | checksum {root : FilePath} {project identity : String} {effective : EngineOptions}
      (hidentity : relocatableIdentity project root path = .ok identity)
      (hfile : effective.get? EngineOptions.filenameKey = some (.string identity))
      (hothers : ∀ name, EngineOptions.filenameKey ≠ name →
        effective.get? name = given.get? name) :
      Effective given path (.checksum root project) effective

theorem effective_of_effectiveOptions {effective : EngineOptions}
    (h : effectiveOptions options path mode = .ok effective) :
    Effective options path mode effective := by
  cases mode with
  | mtime =>
      cases h
      exact .mtime
  | checksum root project =>
      obtain ⟨identity, hidentity, rfl⟩ := map_eq_ok.1 h
      refine .checksum hidentity (Keyed.get?_insert_self ..) fun name hname => ?_
      rw [EngineOptions.withFilename, Keyed.get?_insert, if_neg hname]

/-- Two keys are the same exactly if the options that they stand for are, and
their tails. In particular a key does not tell in which order options were set
or written over one another, and no tail makes up for a difference between
options. -/
theorem build_eq_iff {options' : EngineOptions} {path' : FilePath} {mode' : Mode}
    {version' : String} {discriminator' : Option String} {key' : String}
    (ho : options.Plain) (ho' : options'.Plain)
    (h : build options path mode version discriminator = .ok key)
    (h' : build options' path' mode' version' discriminator' = .ok key') :
    (∃ effective effective', Effective options path mode effective ∧
      Effective options' path' mode' effective' ∧
      (key = key' ↔ effective = effective' ∧
        tail version discriminator = tail version' discriminator')) ∧
    ∀ a : EngineOptions.Assembly, (∀ name, a.last? name = options.get? name) →
      build a.options path mode version discriminator = .ok key := by
  constructor
  · obtain ⟨effective, heff, hkey⟩ := map_eq_ok.1 h
    obtain ⟨effective', heff', hkey'⟩ := map_eq_ok.1 h'
    refine ⟨effective, effective', effective_of_effectiveOptions heff,
      effective_of_effectiveOptions heff', ?_, ?_⟩
    · rintro rfl
      obtain ⟨⟨common, hcommon, hcommon'⟩, htail⟩ := effectiveOptions_and_tail_of_build ho ho' h h'
      rw [heff] at hcommon
      rw [heff'] at hcommon'
      cases hcommon
      cases hcommon'
      exact ⟨rfl, htail⟩
    · rintro ⟨rfl, htail⟩
      rw [← hkey, ← hkey', htail]
  · intro a ha
    have hsame : a.options = options := Keyed.ext_get? fun name => by
      rw [a.get?_options, ha]
    rw [hsame]
    exact h

/-- A list of presets, as an option. -/
def presets : EngineOptions := Keyed.ofList [("presets", .array [.string "env", .int (-1)])]

theorem presets_plain : presets.Plain := by
  intro name value hvalue
  have hmem : (name, value) ∈ [("presets", Json.array [.string "env", .int (-1)])] :=
    Members.mem_of_find? hvalue
  cases List.mem_singleton.1 hmem
  exact ⟨trivial, show Json.IsWhole (-1) by decide, trivial⟩

/-- One key for a file that is named from a source root and for one whose name
was set to the same, under a version with a colon and a brace in it and under a
version and a discriminator that make the same of it. -/
theorem build_eq_iff_across_modes :
    ∃ key, build (presets.withFilename "app:src/a.js") ⟨"/a.js"⟩ .mtime "1:\x7d" none = .ok key ∧
      build presets ⟨"/work/./src//a.js"⟩ (.checksum ⟨"/work"⟩ "app") "1" (some "\x7d")
        = .ok key ∧
      ∃ effective, Effective (presets.withFilename "app:src/a.js") ⟨"/a.js"⟩ .mtime effective ∧
        Effective presets ⟨"/work/./src//a.js"⟩ (.checksum ⟨"/work"⟩ "app") effective ∧
        tail "1:\x7d" none = tail "1" (some "\x7d") := by
  have hidentity : relocatableIdentity "app" ⟨"/work"⟩ ⟨"/work/./src//a.js"⟩
      = .ok "app:src/a.js" := toOption_eq_some.1 (by decide +kernel)
  have hbuild : build (presets.withFilename "app:src/a.js") ⟨"/a.js"⟩ .mtime "1:\x7d" none
      = .ok ((presets.withFilename "app:src/a.js").canonical ++ ":" ++ "1:\x7d") := rfl
  have hbuild' : build presets ⟨"/work/./src//a.js"⟩ (.checksum ⟨"/work"⟩ "app") "1"
      (some "\x7d")
      = .ok ((presets.withFilename "app:src/a.js").canonical ++ ":" ++ "1:\x7d") := by
    have htail : tail "1" (some "\x7d") = "1:\x7d" := by decide +kernel
    refine map_eq_ok.2 ⟨_, map_eq_ok.2 ⟨_, hidentity, rfl⟩, ?_⟩
    rw [htail]
  obtain ⟨⟨effective, effective', heff, heff', hiff⟩, -⟩ :=
    build_eq_iff (presets_plain.withFilename _) presets_plain hbuild hbuild'
  obtain ⟨rfl, htail⟩ := hiff.1 rfl
  exact ⟨_, hbuild, hbuild', effective, heff, heff', htail⟩

end CacheKey

end TransformCache

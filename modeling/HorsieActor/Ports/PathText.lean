import HorsieActor.Ports.Path
import HorsieActor.Verified.Delimited

/-!
# Paths as text

`Display` and `parse` of `src/path.rs`.  A path is written as its segments, each
behind a separator, and the root as a separator alone; it is read back by splitting
at the separators.  A segment that is empty or holds a separator could be read in
another way, and `is_valid_name` excludes these two and nothing else
(`faithfulText`).

Being under a path is a prefix of segments.  On the text it is a prefix that ends
where a segment does: `/ab` is not under `/a`.
-/

namespace HorsieActor.Ports

open HorsieActor.Verified

namespace ActorPath

/-! ## Writing and reading -/

/-- `Display`: the segments one after the other. -/
def display (path : ActorPath) : String :=
  if path.segments.isEmpty then "/"
  else path.segments.foldl (fun text segment => text ++ ("/" ++ segment)) ""

/-- A string that does not stand for exactly one path. -/
structure InvalidPath where
  text : String
  deriving DecidableEq, Repr

/-- Read a path back from its display form. -/
def parse (text : String) : Except InvalidPath ActorPath :=
  match text.toList with
  | '/' :: rest =>
      if rest.isEmpty then .ok root
      else
        let segments := (rest.splitOn '/').map String.ofList
        if segments.any String.isEmpty then .error ⟨text⟩ else .ok ⟨segments⟩
  | _ => .error ⟨text⟩

/-! ## The property -/

/-- Every segment could be the name of an actor. -/
def Valid (path : ActorPath) : Prop := ∀ name ∈ path.segments, isValidName name = true

/-- The separator alone, or names with a separator in front of each: at least one,
none empty and none with a separator in it. -/
def WellFormed (text : String) : Prop :=
  text = "/" ∨ ∃ names : List String, names ≠ [] ∧ (∀ name ∈ names, name ≠ "" ∧ '/' ∉ name.toList) ∧
    text = String.join (names.map fun name => "/" ++ name)

structure FaithfulText (path base : ActorPath) (text : String) : Prop where
  parse_display : path.Valid → parse path.display = .ok path
  display_parse : parse text = .ok path → path.display = text ∧ path.Valid
  accepts : (∃ read, parse text = .ok read) ↔ WellFormed text
  startsWith : path.Valid → base.Valid →
    (path.startsWith base = true ↔
      base = root ∨ path.display = base.display ∨
        ∃ rest, path.display = base.display ++ "/" ++ rest)

/-! ## Characters -/

theorem isValidName_iff {name : String} :
    isValidName name = true ↔ name ≠ "" ∧ '/' ∉ name.toList := by
  simp [isValidName]

/-- The words of a path. -/
def words (path : ActorPath) : List (List Char) := path.segments.map String.toList

theorem Valid.words {path : ActorPath} (h : path.Valid) : ∀ w ∈ path.words, '/' ∉ w := by
  intro w hw
  obtain ⟨name, hname, rfl⟩ := List.mem_map.mp hw
  exact (isValidName_iff.mp (h name hname)).2

theorem toList_foldl (names : List String) : ∀ text : String,
    (names.foldl (fun text segment => text ++ ("/" ++ segment)) text).toList =
      text.toList ++ Delimited.lead '/' (names.map String.toList) := by
  induction names with
  | nil => intro text; simp
  | cons name names ih =>
      intro text
      rw [List.foldl_cons, ih]
      simp

theorem toList_join (names : List String) :
    (String.join (names.map fun name => "/" ++ name)).toList =
      Delimited.lead '/' (names.map String.toList) := by
  simp [String.toList_join, Delimited.lead, List.flatMap_map]

theorem toList_display {path : ActorPath} (h : path ≠ root) :
    path.display.toList = Delimited.lead '/' path.words := by
  have hne : path.segments.isEmpty = false := by
    cases hs : path.segments with
    | nil => exact absurd (congrArg ActorPath.mk hs) h
    | cons name names => rfl
  rw [display, if_neg (by simp [hne]), toList_foldl]
  rfl

/-! ## What is read -/

theorem parse_of_toList {text : String} {rest : List Char} (h : text.toList = '/' :: rest) :
    parse text =
      if rest.isEmpty then .ok root
      else if ((rest.splitOn '/').map String.ofList).any String.isEmpty then .error ⟨text⟩
      else .ok ⟨(rest.splitOn '/').map String.ofList⟩ := by
  unfold parse
  rw [h]
  rfl

/-- The text of a path that is read: the separator alone for the root, and for any
other path its names. -/
theorem parse_eq_ok_iff {text : String} {path : ActorPath} :
    parse text = .ok path ↔
      (text.toList = ['/'] ∧ path = root) ∨
        (path ≠ root ∧ path.Valid ∧ text.toList = Delimited.lead '/' path.words) := by
  constructor
  · intro h
    unfold parse at h
    split at h
    · rename_i rest hrest
      split at h
      · rename_i hempty
        cases h
        rw [List.isEmpty_iff] at hempty
        exact Or.inl ⟨by rw [hrest, hempty], rfl⟩
      · dsimp only at h
        split at h
        · cases h
        · rename_i hsegments
          cases h
          have hwords : words ⟨(rest.splitOn '/').map String.ofList⟩ = rest.splitOn '/' := by
            simp [words, Function.comp_def]
          refine Or.inr ⟨?_, ?_, ?_⟩
          · intro hroot
            cases hsplit : rest.splitOn '/' with
            | nil => exact List.splitOn_ne_nil '/' rest hsplit
            | cons w ws =>
                rw [hsplit] at hroot
                cases hroot
          · intro name hname
            obtain ⟨w, hw, rfl⟩ := List.mem_map.mp hname
            rw [isValidName_iff, String.toList_ofList]
            refine ⟨?_, Delimited.not_mem_of_mem_splitOn hw⟩
            intro hnil
            refine hsegments (List.any_eq_true.mpr ⟨_, hname, ?_⟩)
            rw [hnil]
            rfl
          · rw [hwords, Delimited.lead_splitOn, hrest]
    · cases h
  · rintro (⟨htext, rfl⟩ | ⟨hroot, hvalid, htext⟩)
    · unfold parse
      rw [htext]
      rfl
    · obtain ⟨name, names, hsegments⟩ : ∃ name names, path.segments = name :: names := by
        cases hs : path.segments with
        | nil => exact absurd (congrArg ActorPath.mk hs) hroot
        | cons name names => exact ⟨name, names, rfl⟩
      have hlead : Delimited.lead '/' path.words =
          '/' :: (name.toList ++ Delimited.lead '/' (names.map String.toList)) := by
        rw [words, hsegments]
        rfl
      have hname : name ≠ "" := (isValidName_iff.mp (hvalid name (by simp [hsegments]))).1
      have hmap : (path.words).map String.ofList = path.segments := by
        simp [words, Function.comp_def]
      rw [parse_of_toList (htext.trans hlead), if_neg (by simp [hname]),
        Delimited.splitOn_of_lead hvalid.words hlead, hmap, if_neg]
      intro hany
      obtain ⟨s, hs, hempty⟩ := List.any_eq_true.mp hany
      exact (isValidName_iff.mp (hvalid s hs)).1 (String.isEmpty_iff.mp hempty)

theorem display_root : display root = "/" := rfl

theorem valid_root : root.Valid := fun _ h => absurd h List.not_mem_nil

theorem parse_display {path : ActorPath} (h : path.Valid) : parse path.display = .ok path := by
  by_cases hroot : path = root
  · subst hroot
    exact parse_eq_ok_iff.mpr (Or.inl ⟨by rw [display_root]; rfl, rfl⟩)
  · exact parse_eq_ok_iff.mpr (Or.inr ⟨hroot, h, toList_display hroot⟩)

theorem display_of_parse {text : String} {path : ActorPath} (h : parse text = .ok path) :
    path.display = text ∧ path.Valid := by
  rcases parse_eq_ok_iff.mp h with ⟨htext, rfl⟩ | ⟨hroot, hvalid, htext⟩
  · refine ⟨String.toList_inj.mp ?_, valid_root⟩
    rw [htext, display_root]
    rfl
  · exact ⟨String.toList_inj.mp (by rw [htext, toList_display hroot]), hvalid⟩

theorem exists_parse_iff {text : String} :
    (∃ path, parse text = .ok path) ↔ WellFormed text := by
  constructor
  · rintro ⟨path, h⟩
    rcases parse_eq_ok_iff.mp h with ⟨htext, -⟩ | ⟨hroot, hvalid, htext⟩
    · exact Or.inl (String.toList_inj.mp htext)
    · refine Or.inr ⟨path.segments, ?_,
        fun name hname => isValidName_iff.mp (hvalid name hname), ?_⟩
      · intro hnil
        exact hroot (congrArg ActorPath.mk hnil)
      · exact String.toList_inj.mp (by rw [htext, toList_join]; rfl)
  · rintro (rfl | ⟨names, hne, hnames, rfl⟩)
    · exact ⟨root, parse_eq_ok_iff.mpr (Or.inl ⟨rfl, rfl⟩)⟩
    · refine ⟨⟨names⟩, parse_eq_ok_iff.mpr (Or.inr ⟨?_, ?_, toList_join names⟩)⟩
      · intro hroot
        exact hne (congrArg ActorPath.segments hroot)
      · exact fun name hname => isValidName_iff.mpr (hnames name hname)

/-! ## What is under what -/

theorem prefix_words_iff {path base : ActorPath} :
    base.segments <+: path.segments ↔ base.words <+: path.words := by
  constructor
  · exact fun h => h.map _
  · rintro ⟨rest, hrest⟩
    have hback : ∀ p : ActorPath, p.words.map String.ofList = p.segments := by
      intro p
      simp [words, Function.comp_def]
    refine ⟨rest.map String.ofList, ?_⟩
    rw [← hback path, ← hrest, List.map_append, hback]

theorem startsWith_display_iff {path base : ActorPath} (h : path.Valid) (hbase : base.Valid) :
    path.startsWith base = true ↔
      base = root ∨ path.display = base.display ∨
        ∃ rest, path.display = base.display ++ "/" ++ rest := by
  by_cases hroot : base = root
  · subst hroot
    exact ⟨fun _ => Or.inl rfl, fun _ => startsWith_iff.mpr List.nil_prefix⟩
  by_cases hpath : path = root
  · -- the root is under nothing but itself, and its text has no other's in front
    subst hpath
    obtain ⟨c, rest, hrest⟩ : ∃ c rest, base.display.toList = '/' :: c :: rest := by
      obtain ⟨segments⟩ := base
      cases segments with
      | nil => exact absurd rfl hroot
      | cons name names =>
          have hname := (isValidName_iff.mp (hbase name (List.mem_cons_self ..))).1
          rw [toList_display hroot]
          cases hchars : name.toList with
          | nil => exact absurd (String.toList_inj.mp hchars) hname
          | cons c rest =>
              refine ⟨c, rest ++ Delimited.lead '/' (names.map String.toList), ?_⟩
              simp [words, hchars]
    rw [startsWith_iff]
    constructor
    · intro hpre
      exact absurd (congrArg ActorPath.mk (List.prefix_nil.mp hpre)) hroot
    · rintro (heq | heq | ⟨more, heq⟩)
      · exact absurd heq hroot
      · have hlist := congrArg String.toList heq
        rw [hrest] at hlist
        cases hlist
      · have hlist := congrArg String.toList heq
        rw [String.toList_append, String.toList_append, hrest] at hlist
        cases hlist
  · rw [startsWith_iff, prefix_words_iff, Delimited.prefix_iff hbase.words h.words,
      ← toList_display hroot, ← toList_display hpath, String.toList_inj]
    constructor
    · rintro (heq | ⟨rest, hrest⟩)
      · exact Or.inr (Or.inl heq)
      · refine Or.inr (Or.inr ⟨String.ofList rest, String.toList_inj.mp ?_⟩)
        rw [← hrest]
        simp
    · rintro (heq | heq | ⟨rest, heq⟩)
      · exact absurd heq hroot
      · exact Or.inl heq
      · exact Or.inr ⟨rest.toList, by rw [heq]; simp⟩

/-! ## The result -/

/-- **Path text is a faithful encoding.** -/
theorem faithfulText (path base : ActorPath) (text : String) : FaithfulText path base text where
  parse_display := parse_display
  display_parse := display_of_parse
  accepts := exists_parse_iff
  startsWith := startsWith_display_iff

example : (parse "/acct-7/session-3").toOption.map segments = some ["acct-7", "session-3"] := by
  decide +kernel

end ActorPath

end HorsieActor.Ports

import ProtectedRegions.Proofs.Gathering
import ProtectedRegions.Proofs.Planning

/-
  Preparing — what a run knows before it plans

  A run loads the configured parsers and reads one root with them. The root may be
  missing; if it is there it has to be a directory, and what lies below it legible.

  What is proved:
    1. `reads_configured` — one root, read by a builder with the configured parsers.
    2. `prepared` and `exists_prepared` — when the regions below one root are read,
       and which they are.
-/

namespace ProtectedRegions

namespace Sync

variable {w : Workspace} {root : Path} {config : Option Text} {entries : List ParserEntry}

/-- The configured parsers, each with the files it is for. -/
def registered (entries : List ParserEntry) : List Registration :=
  (Builder.configured entries).registrations

/-- Everything that is captured below a root. -/
def corpus (w : Workspace) (registrations : List Registration) (root : Path) : Set Capture :=
  {c | ∃ q ∈ w.listFiles root none, c ∈ Reading.captures w registrations q.text}

/-- What lies at a root can be read: it is nothing or a directory, no parser gives
up on a file below it, and the captures agree. -/
structure Legible (w : Workspace) (registrations : List Registration) (root : Path) : Prop where
  directory : w.exists? root = true → w.isDirectory root = true
  readable : ∀ q ∈ w.listFiles root none, Reading.Readable w registrations q.text
  agree : Agree (corpus w registrations root)

theorem listFiles_of_missing (h : w.exists? root = false) : w.listFiles root none = [] := by
  unfold Workspace.exists? Workspace.at? at h
  unfold Workspace.listFiles
  cases hl : w.locate root with
  | error fault => rfl
  | ok l =>
    rw [hl] at h
    have hnone : w.lookup? l = none := by simpa using h
    simp [hnone]

theorem legible_of_missing (registrations : List Registration) (h : w.exists? root = false) :
    Legible w registrations root ∧ corpus w registrations root = ∅ := by
  have hcorpus : corpus w registrations root = ∅ := by
    ext c
    simp [corpus, listFiles_of_missing h]
  refine ⟨⟨fun hexists => ?_, by simp [listFiles_of_missing h], ?_⟩, hcorpus⟩
  · rw [h] at hexists
    cases hexists
  · rw [hcorpus]
    exact nofun

/-- What reading a root comes to, with the registrations of a configuration. -/
structure ReadsRoot (w : Workspace) (entries : List ParserEntry) (root : Path) (a : Attempt) :
    Prop where
  done : a.failure = none → Legible w (registered entries) root ∧
    a.builder.registrations = registered entries ∧ a.builder.stage ≠ .built ∧
    a.builder.pool.captures = corpus w (registered entries) root
  failed : a.failure ≠ none → ¬ Legible w (registered entries) root

theorem ready_configured (hentries : entries ≠ []) : (Builder.configured entries).Ready := by
  refine ⟨?_, ?_, rfl⟩
  · simpa [Builder.configured] using hentries
  · simp [Builder.configured, Builder.new]

theorem reads_configured (hentries : entries ≠ []) (normal : root.Normal) :
    ReadsRoot w entries root ((Builder.configured entries).read w root.text none) := by
  have hroot : (Builder.RootRead.mk root.text none).root = root := Path.ofText_text normal
  have hcorpus : (Builder.configured entries).pool.captures ∪
      (Builder.RootRead.mk root.text none).found w (registered entries) =
      corpus w (registered entries) root := by
    rw [Builder.RootRead.found, hroot]
    exact (congrArg (· ∪ _) Pool.captures_empty).trans (Set.empty_union _)
  have answers := Builder.answersRead_read w (ready_configured hentries) ⟨root.text, none⟩
  constructor
  · intro hdone
    obtain ⟨standing, hready, hregistrations, hnext⟩ := answers.done hdone
    rcases hnext with passed | taken
    · have hmissing : w.exists? root = false := by
        rw [← hroot]
        have hvisited : (Builder.configured entries).visited = [] := rfl
        have hstale := passed.stale
        rw [Builder.RootRead.Fresh, hvisited] at hstale
        simpa using hstale
      obtain ⟨legible, hnone⟩ := legible_of_missing (registered entries) hmissing
      refine ⟨legible, hregistrations, hready.unbuilt, ?_⟩
      rw [hnone]
      exact passed.captures.trans Pool.captures_empty
    · have hcaptures := taken.captures.trans hcorpus
      refine ⟨⟨hroot ▸ standing, hroot ▸ taken.legible, ?_⟩, hregistrations, hready.unbuilt,
        hcaptures⟩
      rw [← hcaptures]
      exact Pool.agree_captures _
  · intro hfailed legible
    refine answers.failed hfailed ⟨?_, fun _ => ⟨?_, ?_⟩⟩
    · rw [Builder.RootRead.Standing, hroot]
      exact legible.directory
    · rw [Builder.RootRead.Legible, hroot]
      exact legible.readable
    · exact hcorpus ▸ legible.agree

/-- A builder that one root was read with: the configured parsers are registered,
what lies at the root could be read, and the pool has its captures. -/
structure Prepared (w : Workspace) (config : Option Text) (root : Path) (b : Builder)
    (entries : List ParserEntry) : Prop where
  loaded : Configuration.load w config = .ok entries
  nonempty : entries ≠ []
  legible : Legible w (registered entries) root
  registrations : b.registrations = registered entries
  captures : b.pool.captures = corpus w (registered entries) root

theorem prepare_result (entries : List ParserEntry)
    (h : Configuration.load w config = .ok entries) (root : Text) :
    (prepare w [root] config).result =
      match ((Builder.configured entries).read w root none).failure with
      | some e => .error e
      | none => .ok ((Builder.configured entries).read w root none).builder.build.builder := by
  unfold prepare
  rw [h]
  simp only [Builder.readAll, Logged.silent, Logged.andThen_ok]
  cases ((Builder.configured entries).read w root none).failure <;> rfl

theorem read_of_no_entries (root : Text) :
    ((Builder.configured []).read w root none).failure = some (.builder .noParsersYet) := rfl

/-- What a preparation that reads one root comes to. -/
theorem prepared (normal : root.Normal) {b : Builder}
    (h : (prepare w [root.text] config).result = .ok b) :
    ∃ entries, Prepared w config root b entries := by
  cases hload : Configuration.load w config with
  | error e =>
    unfold prepare at h
    rw [hload] at h
    cases h
  | ok entries =>
    rw [prepare_result entries hload] at h
    have hentries : entries ≠ [] := by
      rintro rfl
      rw [read_of_no_entries] at h
      cases h
    have reads := reads_configured (w := w) hentries normal
    split at h
    · cases h
    · next hdone =>
      obtain ⟨legible, hregistrations, hstage, hcaptures⟩ := reads.done hdone
      obtain rfl := Except.ok.inj h
      unfold Builder.build
      rw [if_neg hstage]
      exact ⟨entries, hload, hentries, legible, hregistrations, hcaptures⟩

theorem exists_prepared (normal : root.Normal) (hload : Configuration.load w config = .ok entries)
    (hentries : entries ≠ []) (legible : Legible w (registered entries) root) :
    ∃ b, (prepare w [root.text] config).result = .ok b := by
  rw [prepare_result entries hload]
  have reads := reads_configured (w := w) hentries normal
  split
  · next e hfailed => exact absurd legible (reads.failed (by simp [hfailed]))
  · exact ⟨_, rfl⟩

end Sync
end ProtectedRegions

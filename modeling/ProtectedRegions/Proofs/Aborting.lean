import ProtectedRegions.Proofs.Gathering

/-
  Aborting — what a read leaves behind that fails half-way

  A root is read file by file, and each file by one parser after the other; every such
  pair is an offer to the pool. A file that is no text is passed over, and of any other
  the parser's document is taken in. The first offer of which that cannot be done ends the
  read, and the builder keeps the pool as it is then: what came before has been taken in,
  and nothing of this offer or of a later one.

  Where a read ended can so be said without its loops: by the offers in front of one, the
  pool that has been through them, and why that pool refuses the one.

  What is proved:
    1. `Follows.andThen` — one reading after the other goes through both lists of offers,
       or ends in one of them.
    2. `follows_files` — what reading the files of a listing comes to.
    3. `read_broke_off` — the builder after a read that fails.
-/

namespace ProtectedRegions

namespace Pool

variable {p q : Pool}

theorem ingestAll_append (documents more : List Sourced) (p : Pool) :
    p.ingestAll (documents ++ more) = (p.ingestAll documents).bind (·.ingestAll more) := by
  induction documents generalizing p with
  | nil => rfl
  | cons x documents ih =>
    rw [List.cons_append, ingestAll, ingestAll]
    cases p.ingest x.document x.source with
    | error e q => rfl
    | ok n q => exact ih q

theorem reaches_of_ingestAll {documents : List Sourced} (h : p.ingestAll documents = .ok q) :
    p.Reaches q := by
  induction documents generalizing p with
  | nil =>
    obtain rfl := Except.ok.inj h
    exact .refl p
  | cons x documents ih =>
    rw [ingestAll] at h
    cases hx : p.ingest x.document x.source with
    | error e next =>
      rw [hx] at h
      cases h
    | ok n next =>
      rw [hx] at h
      have hfirst : p.Reaches next := ⟨[x], (perform_of_ok hx).symm⟩
      exact hfirst.trans (ih h)

/-- What was in a pool stays there, in front of what comes to it. -/
theorem Reaches.entries (h : p.Reaches q) : p.entries <+: q.entries := by
  obtain ⟨documents, rfl⟩ := h
  exact prefix_after p _

end Pool

namespace Reading

/-- A file that is to be read, and a parser that is for it. -/
structure Offer where
  path : Text
  parser : Parser

namespace Offer

def document? (w : Workspace) (x : Offer) : Option Sourced :=
  match w.readText x.path with
  | .error _ => none
  | .ok t =>
    match x.parser.parse t with
    | .error _ => none
    | .ok d => some ⟨d, some x.path⟩

/-- The file is no text. -/
def PassedOver (w : Workspace) (x : Offer) : Prop :=
  ∃ shown fault, w.readText x.path = .error (.unreadable shown fault)

/-- Why a pool takes nothing in from an offer and the reading ends: the text cannot be parsed,
its document does not go with the pool, or there is no file. -/
inductive Refused (w : Workspace) (p : Pool) (x : Offer) : Failure → Prop where
  | unparsed {t : Text} {fault : ParseError} (text : w.readText x.path = .ok t)
      (fails : x.parser.parse t = .error fault) : Refused w p x (.ofParse fault)
  | conflicting {t : Text} {d : Document} {e : PoolError} (text : w.readText x.path = .ok t)
      (parses : x.parser.parse t = .ok d) (refuses : p.ingest d (some x.path) = .error e p) :
      Refused w p x (.pool e)
  | unread {e : DiskError} (fails : w.readText x.path = .error (.disk e)) :
      Refused w p x (.disk e)

end Offer

def documents (w : Workspace) (offers : List Offer) : List Sourced :=
  offers.filterMap (·.document? w)

/-- The offers of the files of a listing: each file with each parser that is for it. -/
def offers (registrations : List Registration) (paths : List Text) : List Offer :=
  paths.flatMap fun path => (parsersFor registrations path).map (⟨path, ·⟩)

variable {w : Workspace} {p q last : Pool} {first more : List Offer} {e : Failure}

/-- A pool has been through offers: each was passed over or had a document, and the documents
were taken in. -/
structure Through (w : Workspace) (p : Pool) (offers : List Offer) (q : Pool) : Prop where
  answered : ∀ x ∈ offers, x.PassedOver w ∨ ∃ y, x.document? w = some y
  taken : p.ingestAll (documents w offers) = .ok q

/-- A pool has been through the offers in front of one that is refused. -/
def Stops (w : Workspace) (p : Pool) (offers : List Offer) (q : Pool) (e : Failure) : Prop :=
  ∃ done x rest, offers = done ++ x :: rest ∧ Through w p done q ∧ x.Refused w q e

theorem through_nil (w : Workspace) (p : Pool) : Through w p [] p := ⟨nofun, rfl⟩

theorem Through.append (h : Through w p first q) (h' : Through w q more last) :
    Through w p (first ++ more) last := by
  refine ⟨?_, ?_⟩
  · exact List.forall_mem_append.mpr ⟨h.answered, h'.answered⟩
  · rw [documents, List.filterMap_append, Pool.ingestAll_append,
      show p.ingestAll (first.filterMap (·.document? w)) = .ok q from h.taken]
    exact h'.taken

/-- Offers of files that are no texts leave a pool as it is. -/
theorem through_of_passedOver (h : ∀ x ∈ first, x.PassedOver w) : Through w p first p := by
  refine ⟨fun x hx => .inl (h x hx), ?_⟩
  have hnone : documents w first = [] := by
    rw [documents, List.filterMap_eq_nil_iff]
    intro x hx
    obtain ⟨shown, fault, hread⟩ := h x hx
    rw [Offer.document?, hread]
  rw [hnone]
  rfl

theorem Stops.append (h : Stops w p first q e) (more : List Offer) :
    Stops w p (first ++ more) q e := by
  obtain ⟨done, x, rest, rfl, through, refused⟩ := h
  exact ⟨done, x, rest ++ more, by simp, through, refused⟩

theorem Through.stops (h : Through w p first q) (h' : Stops w q more last e) :
    Stops w p (first ++ more) last e := by
  obtain ⟨done, x, rest, rfl, through, refused⟩ := h'
  exact ⟨first ++ done, x, rest, by simp, h.append through, refused⟩

/-- A reading has been through offers, or it has stopped at one of them. -/
structure Follows (w : Workspace) (p : Pool) (offers : List Offer) (r : Reading) : Prop where
  done : r.failure = none → Through w p offers r.pool
  failed : ∀ e, r.failure = some e → Stops w p offers r.pool e

theorem Through.follows (h : Through w p first q) (log : List LogLine) :
    Follows w p first ⟨q, none, log⟩ := ⟨fun _ => h, nofun⟩

theorem Offer.Refused.follows {x : Offer} (h : x.Refused w p e) (log : List LogLine) :
    Follows w p [x] ⟨p, some e, log⟩ := by
  refine ⟨nofun, fun e' he => ?_⟩
  obtain rfl := Option.some.inj he
  exact ⟨[], x, [], rfl, through_nil w p, h⟩

theorem Follows.andThen {r : Reading} {f : Pool → Reading} (h : Follows w p first r)
    (hf : ∀ q, Follows w q more (f q)) : Follows w p (first ++ more) (r.andThen f) := by
  unfold Reading.andThen
  cases hfailure : r.failure with
  | some e =>
    refine ⟨fun hnone => ?_, fun e' he => (h.failed e' he).append more⟩
    rw [hfailure] at hnone
    cases hnone
  | none =>
    have through := h.done hfailure
    exact ⟨fun hnone => through.append ((hf r.pool).done hnone),
      fun e he => through.stops ((hf r.pool).failed e he)⟩

theorem follows_ingest {file t : Text} (ht : w.readText file = .ok t) (pool : Pool) (p : Parser) :
    Follows w pool [⟨file, p⟩] (ingest file t pool p) := by
  unfold ingest
  cases hd : p.parse t with
  | error fault => exact (Offer.Refused.unparsed (x := ⟨file, p⟩) ht hd).follows []
  | ok d =>
    simp only
    cases hnext : pool.ingest d (some file) with
    | error e next =>
      obtain ⟨rfl, -⟩ := Pool.ingest_eq_error hnext
      exact (Offer.Refused.conflicting (x := ⟨file, p⟩) ht hd hnext).follows []
    | ok n next =>
      have hdocument : Offer.document? w ⟨file, p⟩ = some ⟨d, some file⟩ := by
        simp only [Offer.document?, ht, hd]
      have through : Through w pool [⟨file, p⟩] next := by
        refine ⟨fun x hx => ?_, ?_⟩
        · rw [List.mem_singleton.mp hx]
          exact .inr ⟨_, hdocument⟩
        · rw [documents, List.filterMap_cons_some hdocument, Pool.ingestAll, hnext]
          rfl
      cases n <;> exact through.follows _

theorem follows_ingestAll {file t : Text} (ht : w.readText file = .ok t) (parsers : List Parser)
    (pool : Pool) :
    Follows w pool (parsers.map (⟨file, ·⟩)) (ingestAll file t parsers pool) := by
  induction parsers generalizing pool with
  | nil => exact (through_nil w pool).follows []
  | cons p parsers ih => exact (follows_ingest ht pool p).andThen ih

/-- A file that cannot be read is not there, or is no text. -/
theorem readText_error {path : Text} (h : w.readText path = .error e) :
    (∃ fault, e = .disk fault) ∨ ∃ fault, e = .unreadable path fault := by
  unfold Workspace.readText at h
  split at h
  · exact .inl ⟨_, (Except.error.inj h).symm⟩
  · next bytes _ =>
    cases hu : Text.decode bytes with
    | ok t =>
      rw [hu] at h
      cases h
    | error fault =>
      rw [hu] at h
      exact .inr ⟨fault, (Except.error.inj h).symm⟩

theorem follows_file (w : Workspace) (registrations : List Registration) (path : Text)
    (pool : Pool) : Follows w pool ((parsersFor registrations path).map (⟨path, ·⟩))
      (file w registrations path pool) := by
  unfold file
  split
  · next hnone =>
    rw [hnone]
    exact (through_nil w pool).follows []
  · next parsers hsome =>
    obtain ⟨p, rest, hcons⟩ := List.exists_cons_of_ne_nil hsome
    split
    · next t ht => exact follows_ingestAll ht _ pool
    · next shown fault ht =>
      refine (through_of_passedOver fun x hx => ?_).follows _
      obtain ⟨p, -, rfl⟩ := List.mem_map.mp hx
      exact ⟨shown, fault, ht⟩
    · next e hother ht =>
      -- the file is asked for once, by the first of its parsers
      rcases readText_error ht with ⟨fault, rfl⟩ | ⟨fault, rfl⟩
      · have refused : Offer.Refused w pool ⟨path, p⟩ (.disk fault) := .unread ht
        rw [hcons, List.map_cons, ← List.singleton_append]
        exact ⟨nofun, fun e he => ((refused.follows []).failed e he).append _⟩
      · exact absurd rfl (hother path fault)

theorem follows_files (w : Workspace) (registrations : List Registration) (paths : List Text)
    (pool : Pool) :
    Follows w pool (offers registrations paths) (files w registrations paths pool) := by
  induction paths generalizing pool with
  | nil => exact (through_nil w pool).follows []
  | cons path paths ih => exact (follows_file w registrations path pool).andThen ih

end Reading

namespace Builder

variable {b next : Builder} {w : Workspace} {path : Text} {filter : Option Filter} {e : Failure}

/-- What is to be read below a root: the files of its listing with the parsers for them. -/
def offered (b : Builder) (w : Workspace) (path : Text) (filter : Option Filter) :
    List Reading.Offer :=
  Reading.offers b.registrations ((w.listFiles (Path.ofText path) filter).map Path.text)

/-- A read broke off: nothing of the builder but its pool is another, and the pool is the one of
before with the documents of the offers in front of one that was refused. -/
structure BrokeOff (b : Builder) (w : Workspace) (path : Text) (filter : Option Filter)
    (next : Builder) (e : Failure) : Prop where
  stage : next.stage = b.stage
  registrations : next.registrations = b.registrations
  skipped : next.skipped = b.skipped
  visited : next.visited = b.visited
  frozen : next.pool.frozen = b.pool.frozen
  stops : Reading.Stops w b.pool (b.offered w path filter) next.pool e
  entries : b.pool.entries <+: next.pool.entries
  found : ∀ id entry, b.pool.find? id = some entry → next.pool.find? id = some entry

/-- An attempt to read a root has gone through, was refused at once, or has broken off. -/
def Accounts (b : Builder) (w : Workspace) (path : Text) (filter : Option Filter) (a : Attempt) :
    Prop :=
  ∀ e, a.failure = some e →
    (a.builder = b ∧ ∃ refusal, e = .builder refusal) ∨ b.BrokeOff w path filter a.builder e

theorem accounts_refuse (refusal : BuilderError) : b.Accounts w path filter (b.refuse refusal) :=
  fun _ he => .inl ⟨rfl, refusal, (Option.some.inj he).symm⟩

theorem accounts_readFresh (b : Builder) (w : Workspace) (path : Text) (filter : Option Filter) :
    b.Accounts w path filter (b.readFresh w path filter) := by
  have follows := Reading.follows_files w b.registrations
    ((w.listFiles (Path.ofText path) filter).map Path.text) b.pool
  unfold readFresh
  simp only
  split
  · next e hfailed =>
    intro e' he
    obtain rfl := Option.some.inj he
    have stops := follows.failed e hfailed
    obtain ⟨done, x, rest, hoffers, through, refused⟩ := stops
    have reached := Pool.reaches_of_ingestAll through.taken
    exact .inr ⟨rfl, rfl, rfl, rfl, reached.frozen,
      ⟨done, x, rest, hoffers, through, refused⟩, reached.entries,
      fun _ _ => Pool.find?_of_prefix reached.entries⟩
  · exact nofun

theorem accounts_read (b : Builder) (w : Workspace) (path : Text) (filter : Option Filter) :
    b.Accounts w path filter (b.read w path filter) := by
  rcases read_cases b w path filter with ⟨e, h⟩ | ⟨log, h⟩ | ⟨-, -, log, h⟩ | h
  · rw [h]
    exact accounts_refuse e
  · rw [h]
    exact nofun
  · rw [h]
    exact nofun
  · rw [h]
    exact accounts_readFresh b w path filter

/-- A read that fails because of what is in a file, a text that a parser cannot parse or a
region that is a duplicate, leaves the builder as it was but for its pool. The offers of the
listing up to the one that is to blame were all gone through, in order, and the pool is what
it was with their documents taken in: it has nothing of the document to blame, nor of a
later one, and all that it had before. -/
theorem read_broke_off (b : Builder) (w : Workspace) (path : Text) (filter : Option Filter)
    (h : (b.read w path filter).failure = some e)
    (content : (∃ fault, e = .ofParse fault) ∨
      ∃ id first second, e = .pool (.duplicate id first second)) :
    b.BrokeOff w path filter (b.read w path filter).builder e := by
  rcases accounts_read b w path filter e h with ⟨-, refusal, rfl⟩ | brokeOff
  · rcases content with ⟨fault | d, hfault⟩ | ⟨_, _, _, hduplicate⟩
    · cases hfault
    · cases hfault
    · cases hduplicate
  · exact brokeOff

/-- Four files: one with a region, one that is no text, one with a new region in front of that
of the first file, and one more. -/
def halfWay : Workspace :=
  ⟨[([['o']], .directory),
    ([['o'], ['a']], .file (Text.encode "//[[region:A]]\nx\n//[[end]]".toList)),
    ([['o'], ['b']], .file ⟨#[255]⟩),
    ([['o'], ['c']],
      .file (Text.encode "//[[region:B]]\n//[[end]]\n//[[region:A]]\ny\n//[[end]]".toList)),
    ([['o'], ['d']], .file (Text.encode "//[[region:C]]\nz\n//[[end]]".toList))],
    by decide, [], [], none⟩

theorem listFiles_halfWay : halfWay.listFiles (Path.ofText ['o']) none =
    [⟨[], [['o'], ['a']]⟩, ⟨[], [['o'], ['b']]⟩, ⟨[], [['o'], ['c']]⟩, ⟨[], [['o'], ['d']]⟩] := by
  have hlocate : halfWay.locate (Path.ofText ['o']) = .ok [['o']] := rfl
  have hnames : halfWay.namesBelow [['o']] = [[['a']], [['b']], [['c']], [['d']]] :=
    List.mergeSort_of_pairwise (by decide)
  unfold Workspace.listFiles
  rw [hlocate]
  simp only [hnames]
  rfl

/-- The third file is to blame, and only the region of the first one is in the pool. -/
theorem read_broke_off_halfWay :
    ∃ b, new.completed (registering twoParsers) = some b ∧
      (b.read halfWay ['o'] none).failure =
        some (.pool (.duplicate ['A'] (some "o/a".toList) (some "o/c".toList))) ∧
      (b.read halfWay ['o'] none).builder.pool.ids = [['A']] ∧
      b.BrokeOff halfWay ['o'] none (b.read halfWay ['o'] none).builder
        (.pool (.duplicate ['A'] (some "o/a".toList) (some "o/c".toList))) := by
  refine ⟨configuredWith twoParsers, completed_registering rfl twoParsers, ?_⟩
  have hattempt : (((configuredWith twoParsers).read halfWay ['o'] none).failure,
      ((configuredWith twoParsers).read halfWay ['o'] none).builder.pool.ids) =
      (some (.pool (.duplicate ['A'] (some "o/a".toList) (some "o/c".toList))), [['A']]) := by
    unfold read readFresh
    simp only [listFiles_halfWay]
    decide +kernel
  obtain ⟨hfailure, hids⟩ := Prod.mk.inj hattempt
  exact ⟨hfailure, hids, read_broke_off _ halfWay ['o'] none hfailure (.inr ⟨_, _, _, rfl⟩)⟩

end Builder
end ProtectedRegions

import StratumServer.Blocks.Stages
import StratumServer.System.Programs
import StratumServer.System.Simulation

/-!
# Rounds and their blocks

A round is to have one block.  The request that found a block looks up the
round, records the block and closes the round in separate sections, and the
lookup also answers with a closed round when it covers the template.

There are four groups.

* `OneBlock` says that no round has two blocks.  It stays when each block is
  recorded in a round without one.
* `TailsApart` is the condition under which the requests keep to that: no
  two of them are between the lookup and the closing at the same time, the
  round is closed once the block is stored, and no closed round covers the
  template of a new block.
* `RoundsExist` holds in every run: the round of a block is in the table.
* The invariant `RoundsApart` and the result, `reach_oneBlock_of_apart`.
  `oneBlock_fails` is a run of two overlapping requests that record their
  blocks in one round.
-/

namespace StratumServer

open Sql Tasks

/-! ## One block for each round -/

/-- The block that an entry of the log records. -/
def recordedBlock : PoolEntry → Option FoundBlock
  | .did _ (.db (.recordFoundBlock block)) _ => some block
  | _ => none

/-- A block is recorded in a round that has no other block. -/
def OwnRound (w : PoolWorld) (e : PoolEntry) : Prop :=
  ∀ block ∈ recordedBlock e, ∀ b ∈ w.shared.db.foundBlocks.rows,
    b.roundId = block.roundId → b.blockHash = block.blockHash

instance (w : PoolWorld) (e : PoolEntry) : Decidable (OwnRound w e) :=
  inferInstanceAs (Decidable (∀ _ ∈ _, ∀ _ ∈ _, _))

/-- No round has two blocks. -/
def OneBlock (db : Database) : Prop :=
  ∀ b ∈ db.foundBlocks.rows, ∀ b' ∈ db.foundBlocks.rows,
    b.roundId = b'.roundId → b = b'

instance (db : Database) : Decidable (OneBlock db) :=
  inferInstanceAs (Decidable (∀ _ ∈ _, ∀ _ ∈ _, _))

section OneBlock

variable {suite : Suite} {data : ChainData} {config : ServerConfig}

theorem OneBlock.run {w : PoolWorld} {t : Task} {d : DbOp}
    (h : OneBlock w.shared.db) {r : Except Error d.Res}
    (hok : OwnRound w (.did t (.db d) r)) : OneBlock (d.run w.shared.db).2 := by
  intro b hb b' hb' hround
  rcases d.blocks_cases w.shared.db with
    heq | ⟨block, n, table, rfl, hins, heq⟩ | ⟨change, f, heq, hfix⟩
  · rw [heq] at hb hb'
    exact h b hb b' hb' hround
  · obtain ⟨hfree, _, _, hrows⟩ := Table.insert_some hins
    rw [heq, hrows] at hb hb'
    -- A block of the same round has the same hash, and the table would have
    -- refused it.
    have hnone : ∀ b ∈ w.shared.db.foundBlocks.rows,
        b.roundId ≠ block.roundId := by
      intro b hb hround
      have hhash := hok block rfl b hb hround
      exact hfree b hb ⟨block.blockHash, congrArg some hhash, rfl⟩
    rcases List.mem_append.1 hb with hold | hnew <;>
      rcases List.mem_append.1 hb' with hold' | hnew'
    · exact h b hold b' hold' hround
    · rw [List.mem_singleton.1 hnew'] at hround
      exact absurd hround (hnone b hold)
    · rw [List.mem_singleton.1 hnew] at hround
      exact absurd hround.symm (hnone b' hold')
    · rw [List.mem_singleton.1 hnew, List.mem_singleton.1 hnew']
  · rw [heq] at hb hb'
    obtain ⟨a, ha, rfl⟩ := List.mem_map.1 hb
    obtain ⟨a', ha', rfl⟩ := List.mem_map.1 hb'
    have hkeep : ∀ b, (if change b then f b else b).roundId = b.roundId := by
      intro b
      split_ifs
      · exact FoundBlock.roundId_of_fixed (hfix b)
      · rfl
    rw [hkeep, hkeep] at hround
    rw [h a ha a' ha' hround]

theorem OneBlock.sem {w : PoolWorld} {t : Task} {o : Op} {r : o.Res}
    {s' : Pool} (h : OneBlock w.shared.db)
    (hsem : (pool suite data config).sem o w.shared r s')
    (hok : OwnRound w (.did t o r)) : OneBlock s'.db := by
  rcases sem_database hsem with heq | ⟨d, rfl, _, rfl⟩
  · rw [heq]
    exact h
  · exact h.run hok

/-- Every run in which each block gets a round of its own. -/
theorem reach_oneBlock {c : PoolConfig}
    (h : (pool suite data config).Reach OwnRound c) :
    OneBlock c.world.shared.db :=
  reach_database (fun _ _ => nofun) (fun _ h => h) (fun h hok => h.run hok) h

end OneBlock

/-! ## Requests that keep apart -/

namespace Stage

/-- The round that a request has looked up and not closed yet. -/
def holds : Stage → Option Nat
  | resolved _ id | recorded _ id _ => some id
  | _ => none

/-- The round in which a request has stored its block and that it has not
closed yet. -/
def unclosed : Stage → Option Nat
  | recorded _ id true => some id
  | _ => none

/-- The node has accepted the block, and its round is still to be found. -/
def isAccepted : Stage → Bool
  | accepted _ => true
  | _ => false

theorem holds_of_unclosed {s : Stage} {id : Nat} (h : s.unclosed = some id) :
    s.holds = some id := by
  cases s with
  | recorded hash id' stored =>
    cases stored with
    | true => exact h
    | false => cases h
  | _ => cases h

theorem unclosed_of_settled {s : Stage} (h : s.settled = true) :
    s.unclosed = none := by
  cases s with
  | recorded | resolved | accepted => cases h
  | _ => rfl

section Next

variable {suite : Suite} {s : Stage} {x : (o : Op) × o.Res} {id : Nat}

/-- A request gets hold of a round by a lookup. -/
theorem holds_next (h : (s.next suite x).holds = some id) :
    s.holds = some id ∨ s.isAccepted = true ∧ FindsRound x id := by
  rcases next_cases suite s x with heq | ⟨_, _, heq⟩ |
    ⟨hash, hs, heq | ⟨id', hfind, heq⟩⟩ |
    ⟨hash, id', _, hs, ⟨_, _, heq⟩ | ⟨_, _, heq⟩⟩ |
    ⟨_, _, _, _, _, _, _, _, _, heq⟩ <;> rw [heq] at h
  · exact Or.inl h
  · cases h
  · cases h
  · cases h
    exact Or.inr ⟨by rw [hs]; rfl, hfind⟩
  · exact Or.inl (by rw [hs]; exact h)
  · exact Or.inl (by rw [hs]; exact h)
  · cases h

theorem resolved_next {hash : String}
    (h : s.next suite x = resolved hash id) :
    (s = resolved hash id ∧ ∀ block row,
        x ≠ ⟨.db (.recordFoundBlock block), .ok row⟩) ∨
      s.isAccepted = true ∧ FindsRound x id := by
  rcases next_cases suite s x with heq | ⟨_, _, heq⟩ |
    ⟨hash, hs, heq | ⟨id', hfind, heq⟩⟩ |
    ⟨hash, id', _, hs, ⟨_, _, heq⟩ | ⟨_, _, heq⟩⟩ |
    ⟨_, _, _, _, _, _, _, _, _, heq⟩
  · refine Or.inl ⟨heq ▸ h, ?_⟩
    rintro block row rfl
    rw [← heq, h] at heq
    cases heq
  · cases heq.symm.trans h
  · cases heq.symm.trans h
  · cases heq.symm.trans h
    exact Or.inr ⟨by rw [hs]; rfl, hfind⟩
  · cases heq.symm.trans h
  · cases heq.symm.trans h
  · cases heq.symm.trans h

variable (suite x) in
/-- A round with a stored block is let go of by closing it. -/
theorem unclosed_next (h : s.unclosed = some id) :
    (s.next suite x).unclosed = some id ∨
      ∃ id' endTemplateId status r,
        x = ⟨.db (.closeRound id' endTemplateId status), r⟩ := by
  rcases next_cases suite s x with heq | ⟨hs, _⟩ | ⟨_, hs, _⟩ |
    ⟨_, _, _, hs, _⟩ | ⟨_, _, _, id', endTemplateId, status, r, _, hx, _⟩
  · rw [heq]
    exact Or.inl h
  · rw [hs] at h
    cases h
  · rw [hs] at h
    cases h
  · rw [hs] at h
    cases h
  · exact Or.inr ⟨id', endTemplateId, status, r, hx⟩

end Next

end Stage

/-- The sessions that have done something. -/
def sessionsIn (log : List PoolEntry) : List Nat :=
  log.filterMap fun e =>
    match e with
    | .did (.session i) _ _ => some i
    | _ => none

/-- The session that an entry of the log looks up or creates a round for. -/
def roundLookup : PoolEntry → Option Nat
  | .did (.session i) (.db (.matchingRound _)) _ => some i
  | .did (.session i) (.db (.getOrCreateCurrentRound _)) _ => some i
  | _ => none

/-- The session and the template of a query for a round. -/
def roundQuery : PoolEntry → Option (Nat × Nat)
  | .did (.session i) (.db (.matchingRound templateId)) _ =>
    some (i, templateId)
  | _ => none

/-- The session whose round could not be closed. -/
def refusedClose : PoolEntry → Option Nat
  | .did (.session i) (.db (.closeRound ..)) (.error _) => some i
  | _ => none

/-- An entry of the log that is a crash. -/
def isCrash : PoolEntry → Bool
  | .crashed => true
  | _ => false

/-- The requests of accepted blocks keep apart: a round is looked up for an
accepted block only while no other request has one that it has not closed,
and no closed round covers the template; and the round of a stored block is
closed. -/
structure TailsApart (suite : Suite) (w : PoolWorld) (e : PoolEntry) :
    Prop where
  lookup : ∀ i ∈ roundLookup e, (sessionStage suite i w.log).isAccepted = true →
    ∀ j ∈ sessionsIn w.log, (sessionStage suite j w.log).holds = none
  newer : ∀ x ∈ roundQuery e, (sessionStage suite x.1 w.log).isAccepted = true →
    ∀ r ∈ w.shared.db.rounds.rows, RoundRepository.Covers x.2 r →
      r.status = .opened
  closes : ∀ i ∈ refusedClose e, (sessionStage suite i w.log).unclosed = none
  survives : isCrash e = true →
    ∀ j ∈ sessionsIn w.log, (sessionStage suite j w.log).unclosed = none

instance (suite : Suite) (w : PoolWorld) (e : PoolEntry) :
    Decidable (TailsApart suite w e) :=
  decidable_of_iff
    ((∀ i ∈ roundLookup e, (sessionStage suite i w.log).isAccepted = true →
        ∀ j ∈ sessionsIn w.log, (sessionStage suite j w.log).holds = none) ∧
      (∀ x ∈ roundQuery e, (sessionStage suite x.1 w.log).isAccepted = true →
        ∀ r ∈ w.shared.db.rounds.rows, RoundRepository.Covers x.2 r →
          r.status = .opened) ∧
      (∀ i ∈ refusedClose e,
        (sessionStage suite i w.log).unclosed = none) ∧
      (isCrash e = true →
        ∀ j ∈ sessionsIn w.log, (sessionStage suite j w.log).unclosed = none))
    ⟨fun ⟨h₁, h₂, h₃, h₄⟩ => ⟨h₁, h₂, h₃, h₄⟩,
      fun h => ⟨h.lookup, h.newer, h.closes, h.survives⟩⟩

/-! ## What a step does to rounds and blocks -/

section Apart

variable {suite : Suite} {data : ChainData} {config : ServerConfig}

variable (suite) in
/-- A session that has got anywhere has done something. -/
theorem mem_sessionsIn {i : Nat} {log : List PoolEntry}
    (h : sessionStage suite i log ≠ .early) : i ∈ sessionsIn log := by
  cases hdone : (current (.session i) log).2 with
  | nil =>
    rw [sessionStage, hdone] at h
    exact absurd rfl h
  | cons x done =>
    have hx : x ∈ (current (.session i) log).2 := by simp [hdone]
    exact List.mem_filterMap.2 ⟨_, mem_of_current hx, rfl⟩

theorem mem_sessionsIn_of_holds {i id : Nat} {log : List PoolEntry}
    (h : (sessionStage suite i log).holds = some id) : i ∈ sessionsIn log := by
  refine mem_sessionsIn suite fun hearly => ?_
  rw [hearly] at h
  cases h

/-- What an operation can do to the rounds and to the blocks of the rounds. -/
structure RoundStep (db db' : Database) (x : (o : Op) × o.Res) : Prop where
  forward : ∀ r ∈ db.rounds.rows, ∃ r' ∈ db'.rounds.rows, r'.id = r.id
  blocks : ∀ b' ∈ db'.foundBlocks.rows,
    (∃ b ∈ db.foundBlocks.rows, b.roundId = b'.roundId) ∨
      ∃ block row, x = ⟨.db (.recordFoundBlock block), .ok row⟩ ∧
        b'.roundId = block.roundId
  rounds : ∀ r' ∈ db'.rounds.rows, r'.status = .opened →
    (∃ r ∈ db.rounds.rows, r.id = r'.id ∧ r.status = .opened) ∨
      (∃ templateId, x.1 = .db (.getOrCreateCurrentRound templateId)) ∧
        r'.id = db.rounds.seq + 1

theorem RoundStep.refl (db : Database) (x : (o : Op) × o.Res) :
    RoundStep db db x :=
  ⟨fun r hr => ⟨r, hr, rfl⟩, fun b hb => Or.inl ⟨b, hb, rfl⟩,
    fun r hr hopen => Or.inl ⟨r, hr, rfl, hopen⟩⟩

theorem DbOp.roundStep {t : Task} {d : DbOp} (hby : d.by t = true)
    (db : Database) : RoundStep db (d.run db).2 ⟨.db d, (d.run db).1⟩ := by
  have hblocks : ∀ b' ∈ (d.run db).2.foundBlocks.rows,
      (∃ b ∈ db.foundBlocks.rows, b.roundId = b'.roundId) ∨
        ∃ block row, (⟨.db d, (d.run db).1⟩ : (o : Op) × o.Res) =
          ⟨.db (.recordFoundBlock block), .ok row⟩ ∧
            b'.roundId = block.roundId := by
    intro b' hb'
    rcases DbOp.blocks_backward hb' with ⟨b, hb, hfix⟩ | ⟨block, n, rfl, rfl⟩
    · exact Or.inl ⟨b, hb, FoundBlock.roundId_of_fixed hfix⟩
    · rcases FoundBlockRepository.recordFoundBlock_cases block db with
        ⟨_, heq⟩ | ⟨table, _, _, heq⟩
      · refine Or.inl ⟨_, ?_, rfl⟩
        simpa only [DbOp.run, heq] using hb'
      · refine Or.inr ?_
        cases hres : ((DbOp.recordFoundBlock block).run db).1 with
        | ok row => exact ⟨block, row, rfl, rfl⟩
        | error e =>
          simp only [DbOp.run, heq] at hres
          cases hres
  rcases d.rounds_cases db with heq | ⟨templateId, n, table, rfl, hins, heq⟩ |
    ⟨id, endTemplateId, status, rfl, _, hrows⟩
  · refine ⟨fun r hr => ⟨r, heq ▸ hr, rfl⟩, hblocks, fun r' hr' hopen => ?_⟩
    exact Or.inl ⟨r', heq ▸ hr', rfl, hopen⟩
  · obtain ⟨_, rfl, hseq, hrows⟩ := Table.insert_some hins
    refine ⟨fun r hr => ⟨r, heq ▸ Table.mem_of_insert hins hr, rfl⟩, hblocks, ?_⟩
    intro r' hr' hopen
    rw [heq, hrows] at hr'
    rcases List.mem_append.1 hr' with hold | hnew
    · exact Or.inl ⟨r', hold, rfl, hopen⟩
    · rw [List.mem_singleton.1 hnew]
      exact Or.inr ⟨⟨templateId, rfl⟩, rfl⟩
  · refine ⟨fun r hr => ?_, hblocks, ?_⟩
    · rw [hrows]
      refine ⟨_, List.mem_map.2 ⟨r, hr, rfl⟩, ?_⟩
      split_ifs <;> rfl
    intro r' hr' hopen
    rw [hrows] at hr'
    obtain ⟨r, hr, rfl⟩ := List.mem_map.1 hr'
    by_cases hid : (r.id == id) = true
    · rw [if_pos hid] at hopen
      -- No task opens a round again.
      cases status with
      | opened => cases hby
      | _ => cases hopen
    · rw [if_neg hid] at hopen ⊢
      exact Or.inl ⟨r, hr, rfl, hopen⟩

theorem sem_roundStep {t : Task} {o : Op} {s s' : Pool} {r : o.Res}
    (hsem : (pool suite data config).sem o s r s') (hby : o.by t = true) :
    RoundStep s.db s'.db ⟨o, r⟩ := by
  rcases sem_database hsem with heq | ⟨d, rfl, hr, rfl⟩
  · rw [heq]
    exact .refl _ _
  · cases hr
    exact DbOp.roundStep hby s.db

/-- The query for a round finds one that covers the template. -/
theorem matchingRound_some {templateId : Nat} {db : Database} {round : Round}
    (h : ((DbOp.matchingRound templateId).run db).1 = .ok (some round)) :
    round ∈ db.rounds.rows ∧ RoundRepository.Covers templateId round := by
  have hmem := List.argmax_mem (Except.ok.inj h)
  obtain ⟨hrow, hcovers⟩ := List.mem_filter.1 hmem
  exact ⟨hrow, of_decide_eq_true hcovers⟩

/-- `get_or_create_current_round` gives an open round or a new one. -/
theorem getOrCreateCurrentRound_ok {templateId : Nat} {db : Database}
    {round : Round} {isNew : Bool}
    (h : ((DbOp.getOrCreateCurrentRound templateId).run db).1 =
      .ok (round, isNew)) :
    (round ∈ db.rounds.rows ∧ round.status = .opened) ∨
      round.id = db.rounds.seq + 1 ∧ round ∈
        ((DbOp.getOrCreateCurrentRound templateId).run db).2.rounds.rows := by
  simp only [DbOp.run, RoundRepository.getOrCreateCurrentRound] at h ⊢
  split at h
  · rename_i round' hfind
    cases h
    exact Or.inl ⟨List.mem_of_find?_eq_some hfind,
      by simpa using List.find?_some hfind⟩
  · cases hins : db.rounds.insert { startTemplateId := templateId } with
    | none =>
      rw [hins] at h
      cases h
    | some x =>
      rw [hins] at h
      cases h
      obtain ⟨_, hid, _, hrows⟩ := Table.insert_some hins
      refine Or.inr ⟨hid, ?_⟩
      change _ ∈ x.2.rows
      rw [hrows]
      exact List.mem_append_right _ List.mem_cons_self

/-! ## Every block has its round -/

/-- The round of a block is in the table. -/
def Database.HasRound (db : Database) (id : Nat) : Prop :=
  ∃ r ∈ db.rounds.rows, r.id = id

/-- The blocks and the requests refer to rounds of the table. -/
structure RoundsExist (suite : Suite) (w : PoolWorld) : Prop where
  blocks : ∀ b ∈ w.shared.db.foundBlocks.rows, w.shared.db.HasRound b.roundId
  held : ∀ i id, (sessionStage suite i w.log).holds = some id →
    w.shared.db.HasRound id

/-- A request held its round before, or it has just found it. -/
theorem holds_did {t : Task} {o : Op} {r : o.Res} {log : List PoolEntry}
    {i id : Nat}
    (hholds : (sessionStage suite i (.did t o r :: log)).holds = some id) :
    (sessionStage suite i log).holds = some id ∨
      t = .session i ∧ (sessionStage suite i log).isAccepted = true ∧
        Stage.FindsRound ⟨o, r⟩ id := by
  by_cases ht : Task.session i = t
  · subst ht
    rw [sessionStage_did] at hholds
    exact (Stage.holds_next hholds).imp_right fun hnew => ⟨rfl, hnew⟩
  · rw [sessionStage_did_of_ne suite ht] at hholds
    exact Or.inl hholds

/-- A session that records a block has looked up its round. -/
theorem resolved_of_record {t : Task} {block : FoundBlock}
    {log : List PoolEntry}
    (hby : (Op.db (.recordFoundBlock block)).by t = true)
    (hstaged : StagedOp suite t (current t log)
      (.db (.recordFoundBlock block))) :
    ∃ i, t = .session i ∧ sessionStage suite i log =
      .resolved block.blockHash block.roundId := by
  cases t with
  | session i => exact ⟨i, rfl, hstaged rfl⟩
  | _ => cases hby

namespace RoundsExist

variable {w : PoolWorld} {t : Task} {o : Op} {r : o.Res} {s' : Pool}

theorem hasRound_did (hsem : (pool suite data config).sem o w.shared r s')
    (hby : o.by t = true) {id : Nat} (h : w.shared.db.HasRound id) :
    s'.db.HasRound id := by
  obtain ⟨round, hround, hid⟩ := h
  obtain ⟨round', hround', hid'⟩ := (sem_roundStep hsem hby).forward round hround
  exact ⟨round', hround', hid'.trans hid⟩

/-- A round that was found is in the table. -/
theorem hasRound_found (hsem : (pool suite data config).sem o w.shared r s')
    (hby : o.by t = true) {id : Nat} (hfind : Stage.FindsRound ⟨o, r⟩ id) :
    s'.db.HasRound id := by
  rcases hfind with ⟨templateId, round, hx, rfl⟩ |
    ⟨templateId, round, isNew, hx, rfl⟩
  · cases hx
    rcases sem_db hsem with ⟨hr, rfl⟩ | ⟨⟨e, he⟩, _⟩
    · exact ⟨round, (matchingRound_some hr.symm).1, rfl⟩
    · cases he
  · cases hx
    rcases sem_db hsem with ⟨hr, hs⟩ | ⟨⟨e, he⟩, _⟩
    · rcases getOrCreateCurrentRound_ok hr.symm with ⟨hmem, _⟩ | ⟨_, hmem⟩
      · exact hasRound_did hsem hby ⟨round, hmem, rfl⟩
      · rw [hs]
        exact ⟨round, hmem, rfl⟩
    · cases he

theorem did (h : RoundsExist suite w)
    (hsem : (pool suite data config).sem o w.shared r s')
    (hby : o.by t = true)
    (hstaged : StagedOp suite t (current t w.log) o) :
    RoundsExist suite (w.after s' (.did t o r)) := by
  refine ⟨fun b' hb' => ?_, fun i id hholds => ?_⟩
  · rcases (sem_roundStep hsem hby).blocks b' hb' with ⟨b, hb, hround⟩ |
      ⟨block, row, hrec, hround⟩
    · rw [← hround]
      exact hasRound_did hsem hby (h.blocks b hb)
    · cases hrec
      obtain ⟨i, _, hi⟩ := resolved_of_record hby hstaged
      rw [hround]
      refine hasRound_did hsem hby (h.held i block.roundId ?_)
      rw [hi]
      rfl
  · rcases holds_did hholds with hold | ⟨_, _, hfind⟩
    · exact hasRound_did hsem hby (h.held i id hold)
    · exact hasRound_found hsem hby hfind

/-- A turn that leaves the tables as they are. -/
theorem congr (h : RoundsExist suite w) {w' : PoolWorld}
    (hblocks : w'.shared.db.foundBlocks = w.shared.db.foundBlocks)
    (hrounds : w'.shared.db.rounds = w.shared.db.rounds)
    (hstage : ∀ i, sessionStage suite i w'.log = sessionStage suite i w.log ∨
      sessionStage suite i w'.log = .early) : RoundsExist suite w' := by
  refine ⟨?_, fun i id hi => ?_⟩
  · unfold Database.HasRound
    rw [hblocks, hrounds]
    exact h.blocks
  · unfold Database.HasRound
    rw [hrounds]
    rcases hstage i with heq | hearly
    · exact h.held i id (heq ▸ hi)
    · rw [hearly] at hi
      cases hi

/-- A new round has no block. -/
theorem ne_new (h : RoundsExist suite w) {b : FoundBlock}
    (hb : b ∈ w.shared.db.foundBlocks.rows) :
    b.roundId ≠ w.shared.db.rounds.seq + 1 := by
  obtain ⟨round, hround, hid⟩ := h.blocks b hb
  have hle : round.id ≤ w.shared.db.rounds.seq :=
    w.shared.db.rounds.ids_le round hround
  omega

end RoundsExist

theorem reach_roundsExist {ok : PoolWorld → PoolEntry → Prop} {c : PoolConfig}
    (h : (pool suite data config).Reach ok c) : RoundsExist suite c.world := by
  refine Machine.Reach.invariant ?_ ?_ ?_ ?_ ?_
    (turns_staged.reach (reach_grounded h))
  · rintro s ⟨now, chain, _, rfl⟩
    exact ⟨fun _ => nofun, fun _ _ => nofun⟩
  · intro w t o r s' hw hsem hok
    exact hw.did hsem hok.1.2.2.1 hok.2
  · intro w t k p s' hw hstart _
    refine hw.congr ?_ ?_ fun i => ?_
    · rw [World.after_shared, start_database hstart]
    · rw [World.after_shared, start_database hstart]
    · exact (sessionStage_began suite i t k w.log).imp_right And.right
  · rintro w s' hw (⟨now, _, rfl⟩ | ⟨_, chain, _, rfl⟩) _
    · exact hw.congr rfl rfl fun i => Or.inl rfl
    · exact hw.congr rfl rfl fun i => Or.inl rfl
  · rintro w s' hw ⟨chain, _, rfl⟩ _
    exact hw.congr rfl rfl fun i => Or.inr rfl

theorem turns_roundsExist {ok : PoolWorld → PoolEntry → Prop} :
    (pool suite data config).Turns ok fun w _ => RoundsExist suite w :=
  fun _ _ _ h _ _ => reach_roundsExist h

/-! ## The invariant -/

/-- What holds while the requests keep apart. -/
structure RoundsApart (suite : Suite) (w : PoolWorld) : Prop where
  one : OneBlock w.shared.db
  alone : ∀ i j id id', (sessionStage suite i w.log).holds = some id →
    (sessionStage suite j w.log).holds = some id' → i = j
  free : ∀ i hash id, sessionStage suite i w.log = .resolved hash id →
    ∀ b ∈ w.shared.db.foundBlocks.rows, b.roundId ≠ id
  closed : ∀ b ∈ w.shared.db.foundBlocks.rows,
    ∀ r ∈ w.shared.db.rounds.rows, r.id = b.roundId → r.status = .opened →
      ∃ i, (sessionStage suite i w.log).unclosed = some b.roundId

namespace RoundsApart

variable {w : PoolWorld} {t : Task} {o : Op} {r : o.Res} {s' : Pool}

/-- The round that a request finds for its block has no block yet. -/
theorem findsRound {i id : Nat} (h : RoundsApart suite w)
    (hexist : RoundsExist suite w)
    (hsem : (pool suite data config).sem o w.shared r s')
    (hok : TailsApart suite w (.did (.session i) o r))
    (haccepted : (sessionStage suite i w.log).isAccepted = true)
    (hfind : Stage.FindsRound ⟨o, r⟩ id) :
    ∀ b ∈ s'.db.foundBlocks.rows, b.roundId ≠ id := by
  -- An open round with a block is held by a request, and none is.
  have hopen : i ∈ roundLookup (.did (.session i) o r) →
      ∀ round ∈ w.shared.db.rounds.rows, round.status = .opened →
        ∀ b ∈ w.shared.db.foundBlocks.rows, b.roundId ≠ round.id := by
    intro hi round hround hstatus b hb heq
    obtain ⟨j, hj⟩ := h.closed b hb round hround heq.symm hstatus
    have hholds := Stage.holds_of_unclosed hj
    have hnone := hok.lookup i hi haccepted j (mem_sessionsIn_of_holds hholds)
    rw [hholds] at hnone
    cases hnone
  rcases hfind with ⟨templateId, round, hx, rfl⟩ |
    ⟨templateId, round, isNew, hx, rfl⟩
  · cases hx
    rcases sem_db hsem with ⟨hr, rfl⟩ | ⟨⟨e, he⟩, _⟩
    · obtain ⟨hmem, hcovers⟩ := matchingRound_some hr.symm
      have hstatus := hok.newer _ rfl haccepted round hmem hcovers
      exact hopen rfl round hmem hstatus
    · cases he
  · cases hx
    rcases sem_db hsem with ⟨hr, rfl⟩ | ⟨⟨e, he⟩, _⟩
    · have hblocks := (DbOp.frame (.getOrCreateCurrentRound templateId)
        w.shared.db).foundBlocks rfl
      change ∀ b ∈ ((DbOp.getOrCreateCurrentRound templateId).run
        w.shared.db).2.foundBlocks.rows, b.roundId ≠ round.id
      rw [hblocks]
      rcases getOrCreateCurrentRound_ok hr.symm with ⟨hmem, hstatus⟩ | ⟨hid, _⟩
      · exact hopen rfl round hmem hstatus
      · rw [hid]
        exact fun b hb => hexist.ne_new hb
    · cases he

section Did

variable (h : RoundsApart suite w)
  (hok : TailsApart suite w (.did t o r))

include h hok

theorem alone_did :
    ∀ i j id id', (sessionStage suite i (.did t o r :: w.log)).holds = some id →
      (sessionStage suite j (.did t o r :: w.log)).holds = some id' →
        i = j := by
  -- Who finds a round finds it when no one else has one.
  have hnone : ∀ {i j id id'}, t = .session i →
      (sessionStage suite i w.log).isAccepted = true →
      Stage.FindsRound ⟨o, r⟩ id →
      (sessionStage suite j w.log).holds ≠ some id' := by
    rintro i j id id' rfl haccepted hfind hj
    have hlookup : i ∈ roundLookup (.did (.session i) o r) := by
      rcases hfind with ⟨_, _, hx, _⟩ | ⟨_, _, _, hx, _⟩ <;> cases hx <;> rfl
    have hfree := hok.lookup i hlookup haccepted j (mem_sessionsIn_of_holds hj)
    rw [hj] at hfree
    cases hfree
  intro i j id id' hi hj
  rcases holds_did hi with hi' | ⟨hti, hacci, hfindi⟩ <;>
    rcases holds_did hj with hj' | ⟨htj, haccj, hfindj⟩
  · exact h.alone i j id id' hi' hj'
  · exact absurd hi' (hnone htj haccj hfindj)
  · exact absurd hj' (hnone hti hacci hfindi)
  · exact Task.session.inj (hti.symm.trans htj)

variable (hexist : RoundsExist suite w)
  (hsem : (pool suite data config).sem o w.shared r s')
  (hby : o.by t = true)
  (hstaged : StagedOp suite t (current t w.log) o)

include hexist hsem hby hstaged

theorem free_did :
    ∀ i hash id, sessionStage suite i (.did t o r :: w.log) =
        .resolved hash id → ∀ b ∈ s'.db.foundBlocks.rows, b.roundId ≠ id := by
  intro i hash id hstage b' hb'
  by_cases ht : Task.session i = t
  · subst ht
    rw [sessionStage_did] at hstage
    rcases Stage.resolved_next hstage with ⟨hold, hx⟩ | ⟨haccepted, hfind⟩
    · rcases (sem_roundStep hsem hby).blocks b' hb' with ⟨b, hb, heq⟩ |
        ⟨block, row, hrec, _⟩
      · rw [← heq]
        exact h.free i hash id hold b hb
      · exact absurd hrec (hx block row)
    · exact h.findsRound hexist hsem hok haccepted hfind b' hb'
  · rw [sessionStage_did_of_ne suite ht] at hstage
    rcases (sem_roundStep hsem hby).blocks b' hb' with ⟨b, hb, heq⟩ |
      ⟨block, row, hrec, _⟩
    · rw [← heq]
      exact h.free i hash id hstage b hb
    · -- Another request records a block, but only one holds a round.
      cases hrec
      obtain ⟨j, rfl, hj⟩ := resolved_of_record hby hstaged
      have hij : i = j := by
        refine h.alone i j id block.roundId ?_ ?_
        · rw [hstage]
          rfl
        · rw [hj]
          rfl
      exact absurd (congrArg Task.session hij) ht

theorem closed_did :
    ∀ b ∈ s'.db.foundBlocks.rows, ∀ r' ∈ s'.db.rounds.rows,
      r'.id = b.roundId → r'.status = .opened →
        ∃ i, (sessionStage suite i (.did t o r :: w.log)).unclosed =
          some b.roundId := by
  intro b' hb' r' hr' hid hopen
  have hstep := sem_roundStep hsem hby
  rcases hstep.blocks b' hb' with ⟨b, hb, hround⟩ | ⟨block, row, hrec, hround⟩
  · rcases hstep.rounds r' hr' hopen with ⟨r₀, hr₀, hid₀, hopen₀⟩ | ⟨_, hnew⟩
    · rw [← hround] at hid ⊢
      obtain ⟨i, hi⟩ := h.closed b hb r₀ hr₀ (hid₀.trans hid) hopen₀
      refine ⟨i, ?_⟩
      by_cases ht : Task.session i = t
      · subst ht
        rw [sessionStage_did]
        rcases Stage.unclosed_next suite ⟨o, r⟩ hi with
          hstill | ⟨id', endTemplateId, status, r₁, hx⟩
        · exact hstill
        · -- The request closes its round, so the round is not open.
          cases hx
          obtain ⟨rfl, hash, stored, hrecorded⟩ := hstaged rfl
          have hid' : id' = b.roundId := by
            have hi' : (stage suite (current (.session i) w.log).2).unclosed =
              some b.roundId := hi
            rw [hrecorded] at hi'
            cases stored with
            | true => exact Option.some.inj hi'
            | false => cases hi'
          rcases sem_db hsem with ⟨_, rfl⟩ | ⟨⟨e, rfl⟩, _⟩
          · obtain ⟨r₂, _, rfl⟩ := List.mem_map.1 hr'
            by_cases hmatch : (r₂.id == id') = true
            · rw [if_pos hmatch] at hopen
              cases hopen
            · rw [if_neg hmatch] at hid
              rw [hid', ← hid] at hmatch
              exact absurd (beq_self_eq_true _) hmatch
          · have hnone := hok.closes i rfl
            rw [hi] at hnone
            cases hnone
      · rw [sessionStage_did_of_ne suite ht]
        exact hi
    · exact absurd (hround.trans (hid.symm.trans hnew)) (hexist.ne_new hb)
  · cases hrec
    obtain ⟨i, rfl, hi⟩ := resolved_of_record hby hstaged
    refine ⟨i, ?_⟩
    rw [sessionStage_did, hi, hround]
    rfl

theorem did : RoundsApart suite (w.after s' (.did t o r)) := by
  refine ⟨?_, h.alone_did hok, h.free_did hok hexist hsem hby hstaged,
    h.closed_did hok hexist hsem hby hstaged⟩
  rw [World.after_shared]
  rcases sem_database hsem with heq | ⟨d, rfl, hr, rfl⟩
  · rw [heq]
    exact h.one
  · cases hr
    refine h.one.run (r := (d.run w.shared.db).1) (t := t) ?_
    intro block hblock b hb hround
    cases d with
    | recordFoundBlock block' =>
      cases hblock
      obtain ⟨i, _, hi⟩ := resolved_of_record hby hstaged
      exact absurd hround (h.free i _ _ hi b hb)
    | _ => cases hblock

end Did

/-- A turn that leaves the tables as they are.  A request that comes to its
end in it has let go of its round. -/
theorem congr (h : RoundsApart suite w) {w' : PoolWorld}
    (hblocks : w'.shared.db.foundBlocks = w.shared.db.foundBlocks)
    (hrounds : w'.shared.db.rounds = w.shared.db.rounds)
    (hstage : ∀ i, sessionStage suite i w'.log = sessionStage suite i w.log ∨
      sessionStage suite i w'.log = .early ∧
        (sessionStage suite i w.log).unclosed = none) :
    RoundsApart suite w' := by
  have hholds : ∀ i id, (sessionStage suite i w'.log).holds = some id →
      (sessionStage suite i w.log).holds = some id := by
    intro i id hi
    rcases hstage i with heq | ⟨hearly, _⟩
    · exact heq ▸ hi
    · rw [hearly] at hi
      cases hi
  refine ⟨?_, ?_, ?_, ?_⟩
  · have hone := h.one
    unfold OneBlock at hone ⊢
    rwa [hblocks]
  · exact fun i j id id' hi hj =>
      h.alone i j id id' (hholds i id hi) (hholds j id' hj)
  · rw [hblocks]
    intro i hash id hi
    rcases hstage i with heq | ⟨hearly, _⟩
    · exact h.free i hash id (heq ▸ hi)
    · rw [hearly] at hi
      cases hi
  · rw [hblocks, hrounds]
    intro b hb r hr hid hopen
    obtain ⟨i, hi⟩ := h.closed b hb r hr hid hopen
    refine ⟨i, ?_⟩
    rcases hstage i with heq | ⟨_, hnone⟩
    · rw [heq]
      exact hi
    · rw [hi] at hnone
      cases hnone

end RoundsApart

/-- No round gets two blocks in a run whose requests keep apart. -/
theorem reach_oneBlock_of_apart {c : PoolConfig}
    (h : (pool suite data config).Reach (TailsApart suite) c) :
    OneBlock c.world.shared.db := by
  have hinv : RoundsApart suite c.world := by
    refine Machine.Reach.invariant ?_ ?_ ?_ ?_ ?_
      (turns_roundsExist.reach (turns_staged.reach (reach_grounded h)))
    · rintro s ⟨now, chain, _, rfl⟩
      exact ⟨fun _ => nofun, fun _ _ _ _ => nofun, fun _ _ _ => nofun,
        fun _ => nofun⟩
    · intro w t o r s' hw hsem hok
      exact hw.did hok.1.1.1 hok.2 hsem hok.1.1.2.2.1 hok.1.2
    · intro w t k p s' hw hstart hok
      refine hw.congr ?_ ?_ fun i => ?_
      · rw [World.after_shared, start_database hstart]
      · rw [World.after_shared, start_database hstart]
      · rcases sessionStage_began suite i t k w.log with heq | ⟨rfl, hearly⟩
        · exact Or.inl heq
        · exact Or.inr ⟨hearly, Stage.unclosed_of_settled (hok.1.2 rfl)⟩
    · rintro w s' hw (⟨now, _, rfl⟩ | ⟨_, chain, _, rfl⟩) _
      · exact hw.congr rfl rfl fun i => Or.inl rfl
      · exact hw.congr rfl rfl fun i => Or.inl rfl
    · rintro w s' hw ⟨chain, _, rfl⟩ hok
      refine hw.congr rfl rfl fun i => Or.inr ⟨rfl, ?_⟩
      by_contra hsome
      refine hsome (hok.1.1.1.survives rfl i (mem_sessionsIn suite ?_))
      intro hearly
      rw [hearly] at hsome
      exact hsome rfl
  exact hinv.one

end Apart

/-- Two sessions find a block each, the second one for the next template.
The first one has performed `n` operations when the second one begins; its
eighth one is the submission of the block to the node. -/
def findsTwo (n : Nat) : List Scene :=
  let job := sampleJob 7 1 easyTarget
  let job' := { sampleJob 8 2 easyTarget with cleanJobs := true }
  bootsWith job ++ logsIn 0 "lotus_a.rig" ++ logsIn 1 "lotus_b.rig" ++
    [.begin (.session 0) (.submit (sampleSubmit "lotus_a.rig" job "0a")),
      .run (.session 0) n {}, .begin .consumer .miningWorkChanged,
      .run .consumer 10 { template := some job' },
      .begin (.session 1) (.newJob job')] ++
    submits 1 (sampleSubmit "lotus_b.rig" job' "0b") ++
    [.run (.session 0) 50 {}]

/-- A run in which two requests that keep apart find a block each. -/
theorem reach_oneBlock_of_apart_sample : ∃ c : PoolConfig,
    (pool sampleSuite sampleData sampleConfig).Reach
      (TailsApart sampleSuite) c ∧
    c.world.shared.db.foundBlocks.rows.map (·.roundId) = [1, 2] ∧
    OneBlock c.world.shared.db := by
  have hrun : (schedule sampleSuite sampleData sampleConfig
      (fun w e => decide (TailsApart sampleSuite w e)) ["genesis"]
      (findsTwo 50)).map (fun c =>
        c.world.shared.db.foundBlocks.rows.map (·.roundId)) =
      some [1, 2] := by
    decide +kernel
  obtain ⟨c, hc, hrounds⟩ := Option.map_eq_some_iff.1 hrun
  have hreach := reach_schedule _ _ _
    (fun _ _ h => of_decide_eq_true h) (by decide) hc
  exact ⟨c, hreach, hrounds, reach_oneBlock_of_apart hreach⟩

/-- The first request looks up its round after the second one has closed it
for a later template, and gets the same round. -/
theorem oneBlock_fails : ∃ c : PoolConfig,
    (pool sampleSuite sampleData sampleConfig).Reach (fun _ _ => True) c ∧
      ¬ OneBlock c.world.shared.db := by
  have hrun : (schedule sampleSuite sampleData sampleConfig (fun _ _ => true)
      ["genesis"] (findsTwo 8)).any (fun c : PoolConfig =>
        decide (¬ OneBlock c.world.shared.db)) = true := by
    decide +kernel
  obtain ⟨c, _, hreach, hend⟩ :=
    exists_schedule _ _ _ (fun _ _ _ => trivial) (by decide) hrun
  exact ⟨c, hreach, hend⟩

end StratumServer

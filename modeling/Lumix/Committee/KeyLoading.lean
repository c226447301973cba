/-
Processes that load keys side by side.

What a process returns for a node is to be what the node's row holds. A
key pair that was read is, and so is one whose row went into the table.
But the insertion yields to a row that came in between, and the process
goes on with the key pair it made: nothing reads the row again. So runs
in which every insertion finds its node without a row return what is
stored (`returned_as_stored`), and two processes that start together do
not (`second_loader_strays`).
-/
import Lumix.Committee.Keys

namespace Lumix.Committee.Keys

open Text

variable {gcm : Gcm} {env : Option String} {encKey : List UInt8}
  {w w' : Database}

-- ========================================================= what is asked

/-- The row of the node holds the key pair, as a process with this
environment reads it. -/
def Stored (gcm : Gcm) (env : Option String) (kp : CommitteeNodeKeyPair)
    (w : Database) : Prop :=
  ∃ encKey row, loadEncryptionKey env = .ok encKey ∧ row ∈ w.rows
    ∧ row.node_id = kp.nodeId ∧ rowToKeyPair gcm row encKey = .ok kp

/-- One key pair for each node of the list, and all of them stored. -/
def AsStored (gcm : Gcm) (t : LoadTask)
    (keypairs : List CommitteeNodeKeyPair) (w : Database) : Prop :=
  keypairs.map (·.nodeId) = t.nodeIds
    ∧ ∀ kp ∈ keypairs, Stored gcm t.env kp w

/-- An insertion that is executed finds no row of its node. -/
def InsertsNew : Call → Choice → Database → Prop
  | .insert _, .fail, _ => True
  | .insert row, _, w => ∀ r ∈ w.rows, r.node_id ≠ row.node_id
  | _, _, _ => True

/-- No other process has come first with a node, and no list of nodes
names one twice that is missing. -/
def Uncontested (t : Run.Transition Loaders LoadEvent) : Prop :=
  System.Meets (fun _ => True) (fun _ => InsertsNew) t

-- ======================================================= the statements

/-- No statement takes a row away or changes it. -/
theorem rows_perform (draw : Draw) {q : Call} {row : KeyRow}
    (h : row ∈ w.rows) : row ∈ (perform draw w q).1.rows := by
  obtain ⟨keys⟩ := w
  cases keys with
  | none => cases h
  | some t =>
      cases q with
      | insert new => exact Table.mem_insertOrIgnore_of_mem new h
      | _ => exact h

/-- No row is lost. -/
theorem rows_exec {q : Call} {c : Choice} {row : KeyRow}
    (h : row ∈ w.rows) : row ∈ (exec q c w).1.rows := by
  cases c with
  | go draw => exact rows_perform draw h
  | fail => exact h
  | lose draw => exact rows_perform draw h

/-- A statement that is answered has gone through. -/
theorem exec_answered {q : Call} {c : Choice} {a : q.Answer}
    (h : (exec q c w).2 = .ok a) :
    ∃ draw, c = .go draw ∧ (perform draw w q).2 = .ok a := by
  cases c with
  | go draw => exact ⟨draw, rfl, h⟩
  | fail => cases h
  | lose draw => cases h

/-- What is selected is there. -/
theorem select_answered {nodeIds : List String} {c : Choice}
    {rows : List KeyRow}
    (h : (exec (.select nodeIds) c w).2 = .ok rows) :
    ∀ r ∈ rows, r ∈ w.rows := by
  obtain ⟨draw, -, hperform⟩ := exec_answered h
  obtain ⟨keys⟩ := w
  cases keys with
  | none => cases hperform
  | some t =>
      injection hperform with hrows
      subst hrows
      exact fun r hr => (List.mem_filter.mp hr).1

/-- Where the node has no row yet, the row goes in. -/
theorem insert_answered {row : KeyRow} {c : Choice} {a : Unit}
    (hnew : InsertsNew (.insert row) c w)
    (h : (exec (.insert row) c w).2 = .ok a) :
    row ∈ (exec (.insert row) c w).1.rows := by
  obtain ⟨draw, rfl, hperform⟩ := exec_answered h
  obtain ⟨keys⟩ := w
  cases keys with
  | none => cases hperform
  | some t =>
      show row ∈ (t.insertOrIgnore row).rows
      have hnew : ∀ r ∈ t.rows, ¬r.node_id = row.node_id := hnew
      rw [Table.rows_insertOrIgnore, if_pos hnew]
      exact List.mem_concat_self

-- ========================================================== one process

/-- A process counts on the rows that are there. -/
def keeping : Discipline Call Database Choice where
  Inv _ := True
  Rely _ w w' := ∀ row ∈ w.rows, row ∈ w'.rows
  Pre _ _ _ := True
  Allow _ := InsertsNew

/-- The loaders lose no row, -/
theorem keeping_lawful : keeping.Lawful (loaders gcm).exec where
  refl _ _ := fun _ h => h
  trans _ _ _ _ h₁ h₂ := fun row h => h₂ row (h₁ row h)
  keeps _ _ _ _ _ _ _ := ⟨trivial, fun _ _ _ h => rows_exec h⟩

/-- in every outcome alike. -/
theorem keeping_uniform : keeping.Uniform (loaders gcm).exec :=
  fun _ _ _ _ _ _ _ _ _ h => rows_exec h

/-- What is stored stays stored. -/
theorem Stored.later {kp : CommitteeNodeKeyPair}
    (h : Stored gcm env kp w) (hw : ∀ row ∈ w.rows, row ∈ w'.rows) :
    Stored gcm env kp w' := by
  obtain ⟨encKey, row, hkey, hrow, hid, hread⟩ := h
  exact ⟨encKey, row, hkey, hw row hrow, hid, hread⟩

/-- For every node. -/
theorem AsStored.later {t : LoadTask}
    {keypairs : List CommitteeNodeKeyPair}
    (h : AsStored gcm t keypairs w) (hw : ∀ row ∈ w.rows, row ∈ w'.rows) :
    AsStored gcm t keypairs w' :=
  ⟨h.1, fun kp hkp => (h.2 kp hkp).later hw⟩

/-- One node more. -/
theorem AsStored.concat {ids : List String}
    {keypairs : List CommitteeNodeKeyPair} {kp : CommitteeNodeKeyPair}
    (h : AsStored gcm ⟨env, ids⟩ keypairs w) (hkp : Stored gcm env kp w) :
    AsStored gcm ⟨env, ids ++ [kp.nodeId]⟩ (keypairs ++ [kp]) w := by
  refine ⟨?_, fun kp' hkp' => ?_⟩
  · rw [List.map_append, h.1]
    rfl
  · rcases List.mem_append.mp hkp' with hkp' | hkp'
    · exact h.2 kp' hkp'
    · rw [List.mem_singleton.mp hkp']
      exact hkp

/-- A key pair that was read is stored. -/
theorem stored_of_row (hkey : loadEncryptionKey env = .ok encKey)
    {row : KeyRow} {kp : CommitteeNodeKeyPair} (hrow : row ∈ w.rows)
    (hread : rowToKeyPair gcm row encKey = .ok kp) :
    Stored gcm env kp w :=
  ⟨encKey, row, hkey, hrow, (nodeId_rowToKeyPair hread).symm, hread⟩

/-- What is read back is stored. -/
theorem stored_readKeyPair (hkey : loadEncryptionKey env = .ok encKey)
    {rows : List KeyRow} (hrows : ∀ r ∈ rows, r ∈ w.rows) {id : String}
    {kp : CommitteeNodeKeyPair}
    (h : readKeyPair gcm encKey
      (.ofList (rows.map fun r => (r.node_id, r))) id = .ok kp) :
    kp.nodeId = id ∧ Stored gcm env kp w := by
  unfold readKeyPair at h
  split at h
  · cases h
  · rename_i row hget
    obtain ⟨r, hr, heq⟩ :=
      List.mem_map.mp (OrderedMap.mem_of_get_ofList hget)
    injection heq with hid hrow
    subst hrow
    exact ⟨(nodeId_rowToKeyPair h).trans hid,
      stored_of_row hkey (hrows r hr) h⟩

/-- Key pairs node by node. -/
theorem asStored_of_forall₂ {ids : List String}
    {keypairs : List CommitteeNodeKeyPair}
    (h : List.Forall₂ (fun id kp => kp.nodeId = id ∧ Stored gcm env kp w)
      ids keypairs) :
    AsStored gcm ⟨env, ids⟩ keypairs w := by
  induction h with
  | nil => exact ⟨rfl, fun kp hkp => absurd hkp List.not_mem_nil⟩
  | cons hkp _ ih =>
      refine ⟨congrArg₂ List.cons hkp.1 ih.1, fun kp' hkp' => ?_⟩
      rcases List.mem_cons.mp hkp' with rfl | hkp'
      · exact hkp.2
      · exact ih.2 kp' hkp'

/-- What was there before is stored. -/
theorem stored_existing (hkey : loadEncryptionKey env = .ok encKey)
    {rows : List KeyRow} (hrows : ∀ r ∈ rows, r ∈ w.rows)
    {entries : List (String × CommitteeNodeKeyPair)}
    (h : existingKeyPairs gcm encKey rows = .ok entries) {id : String}
    {kp : CommitteeNodeKeyPair} (hmem : (id, kp) ∈ entries) :
    kp.nodeId = id ∧ Stored gcm env kp w := by
  have hall := Exec.mapM_eq_ok.mp h
  obtain ⟨k, hk, hget⟩ := List.getElem_of_mem hmem
  have hlt : k < rows.length := hall.length_eq ▸ hk
  have hrow := hall.get hlt hk
  rw [Exec.map_eq_ok] at hrow
  obtain ⟨kp', hread, heq⟩ := hrow
  have heq : (rows[k].node_id, kp') = (id, kp) := heq.trans hget
  injection heq with hid hkp
  subst hkp
  exact ⟨(nodeId_rowToKeyPair hread).trans hid,
    stored_of_row hkey (hrows _ (List.getElem_mem hlt)) hread⟩

/-- One pass of the loop adds one key pair that is stored. -/
theorem safe_loadOrGenerate (hkey : loadEncryptionKey env = .ok encKey)
    (existing : OrderedMap String CommitteeNodeKeyPair) (id : String)
    {i : ℕ} {ids : List String} {keypairs : List CommitteeNodeKeyPair}
    (hexisting : ∀ kp, existing.get id = some kp →
      kp.nodeId = id ∧ Stored gcm env kp w)
    (h : AsStored gcm ⟨env, ids⟩ keypairs w) :
    keeping.Safe (loaders gcm).exec i
      (fun r w' => ∀ kps, r = .ok kps →
        AsStored gcm ⟨env, ids ++ [id]⟩ kps w')
      (loadOrGenerate gcm encKey existing keypairs id) w := by
  unfold loadOrGenerate
  split
  · rename_i kp hget
    intro w' hw kps hkps
    injection hkps with hkps
    obtain ⟨rfl, hstored⟩ := hexisting kp hget
    exact hkps ▸ (h.concat hstored).later hw.1
  · refine .query_then fun w₁ hw₁ => ⟨trivial, fun c _ draw _ => ?_⟩
    refine .ofExcept_then fun row hrow => ?_
    obtain ⟨hid, hread⟩ := rowToKeyPair_keyPairToRow hrow
    refine .query_then fun w₂ hw₂ => ⟨trivial, fun c' hc' a ha => ?_⟩
    intro w₃ hw₃ kps hkps
    injection hkps with hkps
    have hkept : ∀ row ∈ w.rows, row ∈ w₃.rows := fun row hrow =>
      hw₃.1 row (rows_exec (hw₂.1 row (rows_exec (hw₁.1 row hrow))))
    have hinserted := hw₃.1 row (insert_answered hc' ha)
    exact hkps ▸ (h.later hkept).concat (stored_of_row hkey hinserted hread)

/-- A loader returns what is stored. -/
theorem safe_code (t : LoadTask) (i : ℕ) (w : Database) :
    keeping.Safe (loaders gcm).exec i
      (fun r w' => ∀ kps, r = .ok kps → AsStored gcm t kps w')
      ((loaders gcm).code t) w := by
  obtain ⟨env, nodeIds⟩ := t
  show keeping.Safe (loaders gcm).exec i _
    (loadOrGenerateKeys gcm env nodeIds) w
  unfold loadOrGenerateKeys
  refine .ofExcept_then fun encKey hkey => ?_
  refine .query_then fun w₁ _ => ⟨trivial, fun c _ _ _ => ?_⟩
  refine .query_then fun w₂ _ => ⟨trivial, fun c' _ rows hselect => ?_⟩
  generalize hw : (exec (.select nodeIds) c' w₂).1 = w₃
  have hrows : ∀ r ∈ rows, r ∈ w₃.rows := fun r hr =>
    hw ▸ rows_exec (select_answered hselect r hr)
  show keeping.Safe (loaders gcm).exec i _ _
    (exec (.select nodeIds) c' w₂).1
  rw [hw]
  by_cases hall : rows.length = nodeIds.length
  · rw [if_pos hall]
    cases hread : nodeIds.mapM (readKeyPair gcm encKey
        (.ofList (rows.map fun r => (r.node_id, r)))) with
    | error e =>
        show keeping.Safe _ i _ (Prog.ofExcept (nodeIds.mapM _)) w₃
        rw [hread]
        exact .throws e
    | ok keypairs =>
        show keeping.Safe _ i _ (Prog.ofExcept (nodeIds.mapM _)) w₃
        rw [hread]
        intro w₄ hw₄ kps hkps
        injection hkps with hkps
        refine hkps ▸ (asStored_of_forall₂ ?_).later hw₄.1
        exact (Exec.mapM_eq_ok.mp hread).imp fun _ _ h =>
          stored_readKeyPair hkey hrows h
  · rw [if_neg hall]
    refine .ofExcept_then fun entries hentries => ?_
    -- after the passes over `pre` there is a stored pair for each of it,
    -- and what was read before the loop is still there
    refine (Discipline.Safe.foldlM keeping_lawful
      (fun pre keypairs w' => AsStored gcm ⟨env, pre⟩ keypairs w'
        ∧ ∀ r ∈ rows, r ∈ w'.rows)
      (fun pre kps w₃ w₄ h hw => ⟨h.1.later hw.1,
        fun r hr => hw.1 r (h.2 r hr)⟩)
      (fun pre id suf _ keypairs w₃ _ h => ?_) trivial
      ⟨⟨rfl, fun kp hkp => absurd hkp List.not_mem_nil⟩, hrows⟩).mono
      fun r w' _ h kps hkps => (h kps hkps).1
    have hpass := safe_loadOrGenerate (i := i) hkey (.ofList entries) id
      (fun kp hget => stored_existing hkey h.2 hentries
        (OrderedMap.mem_of_get_ofList hget)) h.1
    exact (hpass.frame keeping_uniform
      (fun _ _ hI hw r hr => hw r (hI r hr)) h.2).mono
      fun _ _ _ hpost kps hkps => ⟨hpost.1 kps hkps, hpost.2⟩

-- ============================================================== theorem

/-- Where every insertion that is executed finds its node without a row,
whatever a process has returned is what the rows of its nodes hold, from
then on. -/
theorem returned_as_stored (gcm : Gcm) (w : Database)
    (es : List LoadEvent)
    (hes : ∀ t ∈ Run.accepted (loaders gcm).step ⟨w, []⟩ es,
      Uncontested t)
    {i : ℕ} {t : LoadTask} {keypairs : List CommitteeNodeKeyPair}
    (hi : (Run.run (loaders gcm).step ⟨w, []⟩ es).procs[i]?
      = some ⟨t, some (.pure keypairs)⟩) :
    AsStored gcm t keypairs
      (Run.run (loaders gcm).step ⟨w, []⟩ es).shared := by
  have hguarded : System.Guarded (loaders gcm) keeping
      (fun t r w' => ∀ kps, r = .ok kps → AsStored gcm t kps w')
      (Run.run (loaders gcm).step ⟨w, []⟩ es) := by
    refine System.guarded_run keeping_lawful
      (fun t _ i w' _ => safe_code t i w') nofun ⟨trivial, ?_⟩ hes
    intro i t c hi
    cases hi
  exact hguarded.finished keeping_lawful hi keypairs rfl

-- ============================================================= two runs

/-- The key pair a loader draws for a node. -/
def newPair (id : String) (draw : Draw) : CommitteeNodeKeyPair where
  nodeId := id
  encryptionKeyPair := draw.encryptionKeyPair
  signingKeyPair := draw.signingKeyPair

/-- A process that makes the key of one node. -/
def alone (t : LoadTask) (draw : Draw) : List LoadEvent :=
  [.start t, .run 0 (.go draw), .run 0 (.go draw), .run 0 (.go draw),
   .run 0 (.go draw)]

/-- The first process is done when the second starts. -/
def inTurn (t : LoadTask) (a b : Draw) : List LoadEvent :=
  alone t a ++ [.start t, .run 1 (.go b), .run 1 (.go b)]

/-- Two processes that both look for the node's row before either
inserts one. -/
def overlap (t : LoadTask) (a b : Draw) : List LoadEvent :=
  [.start t, .start t, .run 0 (.go a), .run 0 (.go a), .run 1 (.go b),
   .run 1 (.go b), .run 0 (.go a), .run 0 (.go a), .run 1 (.go b),
   .run 1 (.go b)]

/-- The program for one node, past the environment. -/
theorem code_one {id : String}
    (hkey : loadEncryptionKey env = .ok encKey) :
    (loaders gcm).code ⟨env, [id]⟩ = (do
      ask .createTable
      let rows : List KeyRow ← ask (.select [id])
      if rows.length = 1 then
        let byId := OrderedMap.ofList (rows.map fun r => (r.node_id, r))
        Prog.ofExcept ([id].mapM (readKeyPair gcm encKey byId))
      else do
        let entries ← Prog.ofExcept (existingKeyPairs gcm encKey rows)
        [id].foldlM
          (loadOrGenerate gcm encKey (OrderedMap.ofList entries)) []) := by
  show loadOrGenerateKeys gcm env [id] = _
  unfold loadOrGenerateKeys
  rw [hkey]
  rfl

/-- A loader that is alone stores the pair it returns. -/
theorem run_alone {id : String} {draw : Draw} {row : KeyRow}
    (hkey : loadEncryptionKey env = .ok encKey)
    (hrow : keyPairToRow gcm (newPair id draw) encKey draw.iv₁ draw.iv₂
      = .ok row) :
    Run.run (loaders gcm).step ⟨⟨none⟩, []⟩ (alone ⟨env, [id]⟩ draw)
      = ⟨⟨some (Table.empty.insertOrIgnore row)⟩,
          [⟨⟨env, [id]⟩, some (.pure [newPair id draw])⟩]⟩ := by
  unfold newPair at hrow
  unfold alone
  simp only [Run.run, Run.next, System.step, System.spawn, code_one hkey]
  simp [ask, Prog.query, bind, Prog.bind, loaders, exec, perform,
    Table.empty, existingKeyPairs, Prog.ofExcept, pure, Except.pure,
    loadOrGenerate, OrderedMap.ofList, OrderedMap.get, Entries.find,
    OrderedMap.empty, hrow, newPair]

/-- Until its insertion there are no rows. -/
theorem uncontested_alone {id : String} {draw : Draw} {row : KeyRow}
    (hkey : loadEncryptionKey env = .ok encKey)
    (hrow : keyPairToRow gcm (newPair id draw) encKey draw.iv₁ draw.iv₂
      = .ok row) :
    ∀ t ∈ Run.accepted (loaders gcm).step ⟨⟨none⟩, []⟩
        (alone ⟨env, [id]⟩ draw),
      Uncontested t := by
  have hrows : ∀ t ∈ Run.accepted (loaders gcm).step ⟨⟨none⟩, []⟩
      (alone ⟨env, [id]⟩ draw), t.before.shared.rows = [] := by
    unfold newPair at hrow
    unfold alone
    simp only [Run.accepted, System.step, System.spawn, code_one hkey]
    simp [ask, Prog.query, bind, Prog.bind, loaders, exec, perform,
      Table.empty, existingKeyPairs, Prog.ofExcept, pure, Except.pure,
      loadOrGenerate, OrderedMap.ofList, OrderedMap.get, Entries.find,
      OrderedMap.empty, hrow, Database.rows]
  intro t ht
  obtain ⟨before, event, after⟩ := t
  have hnone : before.shared.rows = [] := hrows _ ht
  cases event with
  | run i c =>
      intro q _
      cases q with
      | insert row =>
          cases c with
          | fail => trivial
          | _ => exact fun r hr => absurd (hnone ▸ hr) List.not_mem_nil
      | _ => cases c <;> trivial
  | _ => trivial

/-- Past the insertion, the row is found. -/
theorem rows_first {row : KeyRow} :
    (Table.empty.insertOrIgnore row : KeyTable).rows = [row] := by
  rw [Table.rows_insertOrIgnore, if_pos fun r hr => by cases hr]
  rfl

/-- The second process reads what the first has stored. -/
theorem run_inTurn {id : String} {a b : Draw} {row : KeyRow}
    (hkey : loadEncryptionKey env = .ok encKey)
    (hrow : keyPairToRow gcm (newPair id a) encKey a.iv₁ a.iv₂
      = .ok row) :
    Run.run (loaders gcm).step ⟨⟨none⟩, []⟩ (inTurn ⟨env, [id]⟩ a b)
      = ⟨⟨some (Table.empty.insertOrIgnore row)⟩,
          [⟨⟨env, [id]⟩, some (.pure [newPair id a])⟩,
           ⟨⟨env, [id]⟩, some (.pure [newPair id a])⟩]⟩ := by
  obtain ⟨hid, hread⟩ := rowToKeyPair_keyPairToRow hrow
  have hid : row.node_id = id := hid
  rw [inTurn, Run.run_append, run_alone hkey hrow]
  simp only [Run.run, Run.next, System.step, System.spawn, code_one hkey]
  simp [ask, Prog.query, bind, Prog.bind, loaders, exec, perform,
    rows_first, hid, readKeyPair, Prog.ofExcept, pure, Except.pure,
    Except.bind, OrderedMap.ofList, OrderedMap.get, OrderedMap.set,
    Entries.place, Entries.find, OrderedMap.empty, hread]

/-- It inserts nothing. -/
theorem uncontested_inTurn {id : String} {a b : Draw} {row : KeyRow}
    (hkey : loadEncryptionKey env = .ok encKey)
    (hrow : keyPairToRow gcm (newPair id a) encKey a.iv₁ a.iv₂
      = .ok row) :
    ∀ t ∈ Run.accepted (loaders gcm).step ⟨⟨none⟩, []⟩
        (inTurn ⟨env, [id]⟩ a b),
      Uncontested t := by
  intro t ht
  rw [inTurn, Run.accepted_append, List.mem_append] at ht
  rcases ht with ht | ht
  · exact uncontested_alone hkey hrow t ht
  · rw [run_alone hkey hrow] at ht
    simp only [Run.accepted, System.step, System.spawn, code_one hkey] at ht
    rcases List.mem_cons.mp ht with rfl | ht
    · trivial
    rcases List.mem_cons.mp ht with rfl | ht
    · intro q hq
      cases hq
      trivial
    · rw [List.mem_singleton.mp ht]
      intro q hq
      cases hq
      trivial

/-- Of two that overlap the second returns a pair that is not stored. -/
theorem run_overlap {id : String} {a b : Draw} {row row' : KeyRow}
    (hkey : loadEncryptionKey env = .ok encKey)
    (hrow : keyPairToRow gcm (newPair id a) encKey a.iv₁ a.iv₂ = .ok row)
    (hrow' : keyPairToRow gcm (newPair id b) encKey b.iv₁ b.iv₂
      = .ok row') :
    Run.run (loaders gcm).step ⟨⟨none⟩, []⟩ (overlap ⟨env, [id]⟩ a b)
      = ⟨⟨some ((Table.empty.insertOrIgnore row).insertOrIgnore row')⟩,
          [⟨⟨env, [id]⟩, some (.pure [newPair id a])⟩,
           ⟨⟨env, [id]⟩, some (.pure [newPair id b])⟩]⟩ := by
  unfold newPair at hrow hrow'
  unfold overlap
  simp only [Run.run, Run.next, System.step, System.spawn, code_one hkey]
  simp [ask, Prog.query, bind, Prog.bind, loaders, exec, perform,
    Table.empty, existingKeyPairs, Prog.ofExcept, pure, Except.pure,
    loadOrGenerate, OrderedMap.ofList, OrderedMap.get, Entries.find,
    OrderedMap.empty, hrow, hrow', newPair]

/-- The row of the first stands, and the second returns its own. -/
theorem overlap_strays {id : String} {a b : Draw} {row row' : KeyRow}
    (hkey : loadEncryptionKey env = .ok encKey)
    (hrow : keyPairToRow gcm (newPair id a) encKey a.iv₁ a.iv₂ = .ok row)
    (hrow' : keyPairToRow gcm (newPair id b) encKey b.iv₁ b.iv₂
      = .ok row')
    (hne : newPair id a ≠ newPair id b) :
    ¬AsStored gcm ⟨env, [id]⟩ [newPair id b]
      ⟨some ((Table.empty.insertOrIgnore row).insertOrIgnore row')⟩ := by
  intro h
  obtain ⟨encKey', r, hkey', hr, -, hread⟩ := h.2 _ List.mem_cons_self
  obtain ⟨hid, hrowRead⟩ := rowToKeyPair_keyPairToRow hrow
  have hid' := (rowToKeyPair_keyPairToRow hrow').1
  have hr : r ∈ ((Table.empty.insertOrIgnore row).insertOrIgnore row').rows :=
    hr
  have hclash : ¬∀ r ∈ [row], ¬r.node_id = row'.node_id := fun hall =>
    hall row List.mem_cons_self (hid.trans hid'.symm)
  rw [Table.rows_insertOrIgnore, rows_first, if_neg hclash,
    List.mem_singleton] at hr
  subst hr
  rw [Except.ok.inj (hkey.symm.trans hkey')] at hrowRead
  exact hne (Except.ok.inj (hrowRead.symm.trans hread))

-- an environment, a cipher on what is sealed below, and two draws

/-- Two digits for each byte. -/
theorem utf16Length_bytesHex (bytes : List UInt8) :
    utf16Length (bytesHex bytes) = 2 * bytes.length := by
  unfold utf16Length bytesHex
  rw [String.toList_ofList]
  induction bytes with
  | nil => rfl
  | cons b bytes ih =>
      have hdigit : ∀ d < 16, (Nat.digitChar d).toNat < 0x10000 := by decide
      have hlt := b.toNat_lt
      rw [List.flatMap_cons, List.map_append, List.sum_append, ih]
      simp only [byteHex, List.map_cons, List.map_nil,
        if_pos (hdigit _ (show b.toNat / 16 < 16 by omega)),
        if_pos (hdigit _ (show b.toNat % 16 < 16 by omega)),
        List.sum_cons, List.sum_nil, List.length_cons]
      omega

/-- A key of 32 bytes in hexadecimal is accepted. -/
theorem loadEncryptionKey_bytesHex {key : List UInt8}
    (h : key.length = 32) :
    loadEncryptionKey (some (bytesHex key)) = .ok key := by
  have hlength : utf16Length (bytesHex key) = 64 := by
    rw [utf16Length_bytesHex, h]
  have hne : bytesHex key ≠ "" := by
    intro hempty
    rw [hempty] at hlength
    cases hlength
  unfold loadEncryptionKey
  simp only [hlength, hne, ne_eq, not_true_eq_false, or_self, if_false,
    bufferFromHex_bytesHex]

namespace KeyLoading

/-- A number as bytes, the most significant first. -/
def bytes (n value : ℕ) : List UInt8 :=
  (List.range n).map fun i => UInt8.ofNat (value / 256 ^ (n - 1 - i))

/-- The key the secrets are encrypted with. -/
def key : List UInt8 := (List.range 32).map UInt8.ofNat

/-- The pairs one loader draws, -/
def first : Draw where
  encryptionKeyPair :=
    { publicKey := bytes 32
        0x8520f0098930a754748b7ddcb43ef75a0dbf3a0d26381af4eba4a98eaa9b4e6a
      secretKey := bytes 32
        0x77076d0a7318a57d3c16c17251b26645df4c2f87ebc0992ab177fba51db92c2a }
  signingKeyPair :=
    { publicKey := bytes 32
        0xd75a980182b10ab7d54bfed3c964073a0ee172f3daa62325af021a68f707511a
      secretKey := bytes 32
        0x9d61b19deffd5a60ba844af492ec2cc44449c5697b326919703bac031cae7f60
        ++ bytes 32
        0xd75a980182b10ab7d54bfed3c964073a0ee172f3daa62325af021a68f707511a }
  iv₁ := ⟨bytes 12 0x010101010101010101010101, rfl⟩
  iv₂ := ⟨bytes 12 0x020202020202020202020202, rfl⟩

/-- and another. -/
def second : Draw where
  encryptionKeyPair :=
    { publicKey := bytes 32
        0xde9edb7d7b7dc1b4d35b61c2ece435373f8343c85b78674dadfc7e146f882b4f
      secretKey := bytes 32
        0x5dab087e624a8a4b79e17f8b83800ee66f3bb1292618b6fd1c2f8b27ff88e0eb }
  signingKeyPair :=
    { publicKey := bytes 32
        0x3d4017c3e843895a92b70aa74d1b7ebc9c982ccf2ec4968cc0cd55f12af4660c
      secretKey := bytes 32
        0x4ccd089b28ff96da9db6c346ec114e0f5b8a319f35aba624da8cf6ed4fb8a6fb
        ++ bytes 32
        0x3d4017c3e843895a92b70aa74d1b7ebc9c982ccf2ec4968cc0cd55f12af4660c }
  iv₁ := ⟨bytes 12 0x030303030303030303030303, rfl⟩
  iv₂ := ⟨bytes 12 0x040404040404040404040404, rfl⟩

/-- One encryption: what went in and what came out. -/
structure Sealing where
  iv : List UInt8
  plain : List UInt8
  cipher : List UInt8
  tag : List UInt8
deriving DecidableEq

/-- The four secret keys under the key above. -/
def sealings : List Sealing :=
  [{ iv := first.iv₁
     plain := first.encryptionKeyPair.secretKey
     cipher := bytes 32
       0x00c4883f1b9dcd1be842a66a49d5349d1422a05c7a438ff642acfc4980b0d21b
     tag := bytes 16 0x5aa8d59e982353354ea660038007dfbb },
   { iv := first.iv₂
     plain := first.signingKeyPair.secretKey
     cipher := bytes 32
       0x0649a82656246b3b7101e80ca195f6d758a06a05ef6611e832657d006bc536a2
       ++ bytes 32
       0x07a240639d87f96f0c217c62239c49a27c387e6e9c0ffb41a3d050daea1e3f4e
     tag := bytes 16 0xe6a4648de89490ebe7fda9230fe38526 },
   { iv := second.iv₁
     plain := second.encryptionKeyPair.secretKey
     cipher := bytes 32
       0xb3e034a869d8d85da7bc79f54e2a5ae1756d47d9fce08a4c9e92cd3afbaa49b9
     tag := bytes 16 0x46b43b198595e13e0f8b85aa96895a2d },
   { iv := second.iv₂
     plain := second.signingKeyPair.secretKey
     cipher := bytes 32
       0x284ac61301aa074757b3982dc9ecef0fcfd33cfb4722c1c9cda3ca4d42accd70
       ++ bytes 32
       0x803531a2bb71f071315621bb30c5235da27ef951b36e5c4b746a58303a0fb201
     tag := bytes 16 0x4965225168057f9251bb5fa230d1b252 }]

/-- Every tag has sixteen bytes. -/
theorem sealings_tag : ∀ s ∈ sealings, s.tag.length = 16 := by decide

/-- No two share an initialisation vector. -/
theorem sealings_iv :
    ∀ s ∈ sealings, ∀ s' ∈ sealings, s.iv = s'.iv → s = s' := by decide

/-- The encryption of this text under this vector. -/
def Sealing.seals (k iv plain : List UInt8) (s : Sealing) : Bool :=
  k = key ∧ s.iv = iv ∧ s.plain = plain

/-- The decryption of this one. -/
def Sealing.opens (k iv tag cipher : List UInt8) (s : Sealing) : Bool :=
  k = key ∧ s.iv = iv ∧ s.tag = tag ∧ s.cipher = cipher

/-- An initialisation vector is used once, and finds what it sealed. -/
theorem find_sealing {p : Sealing → Bool} {s : Sealing}
    (hs : s ∈ sealings) (hp : p s = true)
    (hiv : ∀ s', p s' = true → s'.iv = s.iv) :
    sealings.find? p = some s := by
  cases hfound : sealings.find? p with
  | none => exact absurd hp (List.find?_eq_none.mp hfound s hs)
  | some s' =>
      rw [sealings_iv s' (List.mem_of_find?_eq_some hfound) s hs
        (hiv s' (List.find?_some hfound))]

/-- The cipher as far as these runs use it. -/
def aes : Gcm where
  encrypt k iv plain :=
    (sealings.find? (Sealing.seals k iv plain)).map
      fun s => (s.cipher, s.tag)
  decrypt k iv tag cipher :=
    (sealings.find? (Sealing.opens k iv tag cipher)).map (·.plain)
  length_tag := by
    intro k iv plain cipher tag h
    obtain ⟨s, hs, heq⟩ := Option.map_eq_some_iff.mp h
    injection heq with _ htag
    exact htag ▸ sealings_tag s (List.mem_of_find?_eq_some hs)
  decrypt_encrypt := by
    intro k iv plain cipher tag h
    obtain ⟨s, hs, heq⟩ := Option.map_eq_some_iff.mp h
    injection heq with hcipher htag
    have hseals := List.find?_some hs
    obtain ⟨hkey, hiv, hplain⟩ := of_decide_eq_true hseals
    rw [find_sealing (List.mem_of_find?_eq_some hs)
      (decide_eq_true ⟨hkey, hiv, htag, hcipher⟩) fun s' hs' =>
        (of_decide_eq_true hs').2.1.trans hiv.symm]
    exact congrArg some hplain

/-- A secret is encrypted to its sealing. -/
theorem encryptSecret_sealing {s : Sealing} (hs : s ∈ sealings) {iv : Iv}
    (hiv : iv.val = s.iv) :
    encryptSecret aes (bytesHex s.plain) key iv
      = .ok (bytesHex (s.iv ++ s.tag ++ s.cipher)) := by
  have hfound : aes.encrypt key s.iv s.plain = some (s.cipher, s.tag) :=
    congrArg (Option.map _)
      (find_sealing hs (decide_eq_true ⟨rfl, rfl, rfl⟩)
        fun s' hs' => (of_decide_eq_true hs').2.1)
  simp only [encryptSecret, bufferFromHex_bytesHex, hiv, hfound]

/-- Pairs whose secrets are sealed have a row. -/
theorem exists_row {draw : Draw} (s₁ s₂ : Sealing) (hs₁ : s₁ ∈ sealings)
    (hs₂ : s₂ ∈ sealings) (hiv₁ : draw.iv₁.val = s₁.iv)
    (hiv₂ : draw.iv₂.val = s₂.iv)
    (hplain₁ : draw.encryptionKeyPair.secretKey = s₁.plain)
    (hplain₂ : draw.signingKeyPair.secretKey = s₂.plain) :
    ∃ row, keyPairToRow aes (newPair "node-1" draw) key draw.iv₁ draw.iv₂
      = .ok row := by
  simp only [keyPairToRow, newPair, hplain₁, hplain₂,
    encryptSecret_sealing hs₁ hiv₁, encryptSecret_sealing hs₂ hiv₂]
  exact ⟨_, rfl⟩

/-- The key, as the environment has it. -/
def secret : Option String := some (bytesHex key)

/-- It is read as the key. -/
theorem secret_key : loadEncryptionKey secret = .ok key :=
  loadEncryptionKey_bytesHex rfl

/-- The one loader's pairs have a row, -/
theorem exists_row_first :
    ∃ row, keyPairToRow aes (newPair "node-1" first) key first.iv₁
      first.iv₂ = .ok row :=
  exists_row sealings[0] sealings[1] (List.getElem_mem _)
    (List.getElem_mem _) rfl rfl rfl rfl

/-- and the other's. -/
theorem exists_row_second :
    ∃ row, keyPairToRow aes (newPair "node-1" second) key second.iv₁
      second.iv₂ = .ok row :=
  exists_row sealings[2] sealings[3] (List.getElem_mem _)
    (List.getElem_mem _) rfl rfl rfl rfl

end KeyLoading

/-- Two processes in turn return the same key pair, the one that is
stored. -/
theorem returned_as_stored_inTurn :
    ∃ p, Run.run (loaders KeyLoading.aes).step ⟨⟨none⟩, []⟩
        (inTurn ⟨KeyLoading.secret, ["node-1"]⟩ KeyLoading.first
          KeyLoading.second) = p
      ∧ p.procs = List.replicate 2 ⟨⟨KeyLoading.secret, ["node-1"]⟩,
          some (.pure [newPair "node-1" KeyLoading.first])⟩
      ∧ AsStored KeyLoading.aes ⟨KeyLoading.secret, ["node-1"]⟩
          [newPair "node-1" KeyLoading.first] p.shared := by
  obtain ⟨row, hrow⟩ := KeyLoading.exists_row_first
  have hrun := run_inTurn (b := KeyLoading.second) KeyLoading.secret_key hrow
  refine ⟨_, rfl, congrArg Machine.procs hrun, ?_⟩
  refine returned_as_stored KeyLoading.aes ⟨none⟩
    (inTurn ⟨KeyLoading.secret, ["node-1"]⟩ KeyLoading.first
      KeyLoading.second)
    (uncontested_inTurn KeyLoading.secret_key hrow) (i := 1) ?_
  rw [hrun]
  rfl

/-- The second of two processes that start together returns a key pair
that is not stored. -/
theorem second_loader_strays :
    (Run.run (loaders KeyLoading.aes).step ⟨⟨none⟩, []⟩
        (overlap ⟨KeyLoading.secret, ["node-1"]⟩ KeyLoading.first
          KeyLoading.second)).procs[1]?
      = some ⟨⟨KeyLoading.secret, ["node-1"]⟩,
          some (.pure [newPair "node-1" KeyLoading.second])⟩
    ∧ ¬AsStored KeyLoading.aes ⟨KeyLoading.secret, ["node-1"]⟩
        [newPair "node-1" KeyLoading.second]
        (Run.run (loaders KeyLoading.aes).step ⟨⟨none⟩, []⟩
          (overlap ⟨KeyLoading.secret, ["node-1"]⟩ KeyLoading.first
            KeyLoading.second)).shared := by
  obtain ⟨row, hrow⟩ := KeyLoading.exists_row_first
  obtain ⟨row', hrow'⟩ := KeyLoading.exists_row_second
  rw [run_overlap KeyLoading.secret_key hrow hrow']
  exact ⟨rfl, overlap_strays KeyLoading.secret_key hrow hrow' (by decide)⟩

end Lumix.Committee.Keys

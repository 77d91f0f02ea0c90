/-
  Message passing — raw buffers keep their form.

  Whatever a program calls, the raw buffers that it holds are those made of whole rows.  So their
  storage fits their shape, and each can be made again from its storage or from its rows.

  * `Buffer.whole`: the storage of a buffer;
  * `Carrier.perform_raw`, `Carrier.perform_effect`: one call;
  * `Carrier.performAll_raw`, `Carrier.performAll_inRange`: all calls;
  * `RawBuffer.held_whole`: what any sequence of calls holds, and what the next call does to it.
-/
import MessagePassing.Proofs.Resizing

namespace MessagePassing

open Buffer (Table tableOf rowsOf colsOf Aligned)
open MessagePassing.Count (within limit total)

/-! ## Calls of a process -/

/-- As a process can hold them: shapes, and the values of a list of rows, are counts. -/
def BufferSource.Counted : BufferSource → Prop
  | .zeros n width | .tryZeros n width | .flat _ n width => n < limit ∧ width < limit
  | .rows list => list.length < limit ∧ total (list.map Array.size) < limit
  | .rowsOfWidth list width =>
    (list.length < limit ∧ width < limit) ∧ total (list.map Array.size) < limit

/-- Bounds of columns, new shapes and lists of indices are counts. -/
def BufferDerivation.Counted : BufferDerivation → Prop
  | .columns start stop => start < limit ∧ stop < limit
  | .mapRows cols _ => cols < limit
  | .aggregate _ _ segments => segments < limit
  | .gather indices => indices.size < limit
  | .broadcast rows => rows < limit

/-- New shapes and positions of rows are counts. -/
def BufferChange.Counted : BufferChange → Prop
  | .resize rows cols => rows < limit ∧ cols < limit
  | .setRow i _ => i < limit

/-- All arguments of a call are such that a process can hold them. -/
def BufferCall.Counted : BufferCall → Prop
  | .make source => source.Counted
  | .derive d _ => d.Counted
  | .joinColumns _ => True
  | .change c _ => c.Counted

/-- The shape is one of a countable number of values, unless this is checked. -/
def BufferSource.Fits : BufferSource → Prop
  | .zeros n width => n * width < limit
  | _ => True

/-- The shape that is made of the buffer is one of a countable number of values; that of some of
    its columns always is. -/
def BufferDerivation.Fits (b : Buffer) : BufferDerivation → Prop
  | .columns _ _ => True
  | .mapRows cols _ => b.rows * cols < limit
  | .aggregate _ _ segments => segments * b.cols < limit
  | .gather indices => indices.size * b.cols < limit
  | .broadcast rows => rows * b.cols < limit

/-- The shape after a change is one of a countable number of values; writing a row keeps it. -/
def BufferChange.Fits : BufferChange → Prop
  | .resize rows cols => rows * cols < limit
  | .setRow _ _ => True

/-- The shape that a call computes from those of the held buffers is one of a countable number of
    values. -/
def BufferCall.Fits (held : List Buffer) : BufferCall → Prop
  | .make source => source.Fits
  | .derive d i => ∀ b, held[i]? = some b → d.Fits b
  | .joinColumns operands => ∀ parts, (operands.mapM fun i => held[i]?) = some parts →
    colsOf parts < limit ∧ rowsOf parts * colsOf parts < limit
  | .change c _ => c.Fits

/-! ## Single operations -/

/-- What an operation gives can be held, and it is no fault if its shape fits. -/
structure Buffer.Safe (fits : Prop) (x : Outcome Buffer) : Prop where
  inRange : ∀ c, x = .ok c → c.InRange
  no_fault : fits → ∀ f, x ≠ .error (.fault f)

section
variable {fits passes spills : Prop}

theorem Buffer.Safe.mono {fits' : Prop} {x : Outcome Buffer} (safe : Buffer.Safe fits x)
    (more : fits' → fits) : Buffer.Safe fits' x :=
  ⟨safe.inRange, fun h => safe.no_fault (more h)⟩

theorem Yields.safe {x : Outcome Buffer} (h : Yields Buffer.InRange x passes spills)
    (inside : fits → ¬ spills) : Buffer.Safe fits x :=
  ⟨h.good, fun hf f fault => inside hf ((h.fault_iff f).1 fault).2⟩

theorem Yields.table_safe {rows : Nat} {x : Outcome (Table rows)}
    (h : Yields (fun t => t.val.InRange) x passes spills) (inside : fits → ¬ spills) :
    Buffer.Safe fits ((·.val) <$> x) :=
  Yields.safe (h.map fun _ good => good) inside

end

namespace Buffer

variable {b : Buffer} {rows cols : Nat}

theorem Safe.of_within {fits : Prop} [Decidable fits] {c : Buffer} (h : fits → c.InRange) :
    Safe fits (within fits c) := by
  by_cases hf : fits
  · rw [Count.within_of_fits hf]
    exact ⟨fun _ same => Except.ok.inj same ▸ h hf, fun _ _ => nofun⟩
  · rw [Count.within_of_not_fits hf]
    exact ⟨nofun, fun fit => absurd fit hf⟩

theorem Safe.of_tableOf {f : Nat → Array Scalar} (h : ∀ i, i < rows → (f i).size = cols)
    (hr : rows < limit) (hc : cols < limit) :
    Safe (rows * cols < limit)
      ((·.val) <$> within (rows * cols < limit) (tableOf rows cols f h)) := by
  rw [Count.map_within]
  exact .of_within fun fits => .of_shape hr hc fits

theorem make_safe {source : BufferSource} (counted : source.Counted) :
    Safe source.Fits (make source) := by
  cases source with
  | zeros rows cols =>
    show Safe (rows * cols < limit) (zeros rows cols)
    rw [zeros, Count.check_bind_pure]
    exact .of_within fun fits => .of_shape counted.1 counted.2 fits
  | tryZeros rows cols => exact (tryZeros_yields counted.1 counted.2).safe fun _ => id
  | flat data rows cols => exact (ofFlat_yields data counted.1 counted.2).safe fun _ => id
  | rows rows =>
    have width : (rows.head?.map Array.size).getD 0 < limit := by
      cases rows with
      | nil => decide
      | cons row rest =>
        have among : row.size ∈ (row :: rest).map Array.size := List.mem_cons_self
        exact Nat.lt_of_le_of_lt (Count.le_total among) counted.2
    exact (ofRowsOfWidth_yields counted.1 width counted.2).safe fun _ => id
  | rowsOfWidth rows cols =>
    exact (ofRowsOfWidth_yields counted.1.1 counted.1.2 counted.2).safe fun _ => id

theorem derive_safe (h : b.InRange) {d : BufferDerivation} (counted : d.Counted)
    (promised : d.Promised b.rows) : Safe (d.Fits b) (b.derive d) := by
  cases d with
  | columns start stop => exact (columnRange_yields b.table h start stop).table_safe fun _ => id
  | mapRows cols f =>
    show Safe _ (_ <$> mapRows b.table cols _ _)
    rw [mapRows_eq]
    exact .of_tableOf _ h.rows counted
  | aggregate r index segments =>
    exact (r.aggregate_yields h index counted).table_safe fun fits spills => spills.2 fits
  | gather indices =>
    have inside : ∀ i ∈ indices, i < b.rows := promised
    rw [derive, dif_pos inside, gather_eq]
    exact .of_tableOf _ counted h.cols
  | broadcast rows =>
    have single : b.rows = 1 := promised
    rw [derive, dif_pos single, broadcast_eq]
    exact .of_tableOf _ counted h.cols

theorem joinColumns_safe {parts : List Buffer} (h : ∀ p ∈ parts, p.InRange) :
    Safe (colsOf parts < limit ∧ rowsOf parts * colsOf parts < limit) (joinColumns parts) :=
  (joinColumns_yields h).safe fun fits spills => spills.2 fits

theorem change_safe (h : b.InRange) {c : BufferChange} (counted : c.Counted) :
    ∃ x, b.change c = b.replaceBy x ∧ Safe c.Fits x := by
  cases c with
  | resize rows cols =>
    refine ⟨_, rfl, ?_⟩
    show Safe (rows * cols < limit) _
    rw [resize_eq]
    exact .of_within fun fits => .of_shape counted.1 counted.2 fits
  | setRow i values => exact ⟨_, rfl, (setRow_yields h i values).safe fun _ => id⟩

/-! ## Single operations on raw buffers -/

theorem derive_raw (h : b.InRange) {d : BufferDerivation} (counted : d.Counted)
    (promised : d.Promised b.rows) : b.raw.derive d = raw <$> b.derive d := by
  cases d with
  | columns start stop => exact RawBuffer.columns_raw h start stop
  | mapRows cols f =>
    rw [derive, Functor.map_map]
    exact RawBuffer.mapRows_raw h cols f _
  | aggregate r index segments =>
    rw [derive, Functor.map_map]
    exact RawBuffer.aggregate_raw h r index counted
  | gather indices =>
    have inside : ∀ i ∈ indices, i < b.rows := promised
    rw [derive, dif_pos inside, Functor.map_map]
    exact RawBuffer.gather_raw h inside
  | broadcast rows =>
    have single : b.rows = 1 := promised
    rw [derive, dif_pos single, Functor.map_map]
    exact RawBuffer.broadcast_raw h single rows

theorem change_raw (h : b.InRange) {c : BufferChange} (counted : c.Counted) :
    b.raw.change c = Prod.map id raw (b.change c) := by
  cases c with
  | resize rows cols => exact RawBuffer.resize_raw h counted.1 counted.2
  | setRow i values => exact RawBuffer.setRow_raw h i values

end Buffer

/-! ## Calls -/

namespace Carrier

variable {held : List Buffer} {call : BufferCall} {calls : List BufferCall}

/-- What a call leaves, and how it may end if what it computes fits. -/
inductive Effect (held : List Buffer) (fits : Prop) : List Buffer × Option Failure → Prop
  | kept {failure? : Option Failure} (fine : fits → ∀ f, failure? ≠ some (.fault f)) :
    Effect held fits (held, failure?)
  | made {c : Buffer} (good : c.InRange) : Effect held fits (held ++ [c], none)
  | changed {i : Nat} {c : Buffer} (good : c.InRange) : Effect held fits (held.set i c, none)

theorem hold_effect {fits : Prop} {x : Outcome Buffer} (safe : Buffer.Safe fits x) :
    Effect held fits (hold held x) := by
  cases x with
  | ok c => exact .made (safe.inRange c rfl)
  | error failure =>
    refine .kept fun hf f same => safe.no_fault hf f ?_
    rw [Option.some.inj same]

theorem mem_of_mapM {operands : List Nat} {parts : List Buffer}
    (found : (operands.mapM fun i => held[i]?) = some parts) : ∀ p ∈ parts, p ∈ held := by
  induction operands generalizing parts with
  | nil =>
    cases found
    simp
  | cons i rest ih =>
    rw [List.mapM_cons] at found
    obtain ⟨b, here, found⟩ := Option.bind_eq_some_iff.1 found
    obtain ⟨others, there, found⟩ := Option.bind_eq_some_iff.1 found
    cases found
    exact List.forall_mem_cons.2 ⟨List.mem_of_getElem? here, ih there⟩

theorem perform_effect (h : ∀ b ∈ held, b.InRange) (counted : call.Counted) :
    Effect held (call.Fits held) (rowwise.perform held call) := by
  cases call with
  | make source => exact hold_effect (Buffer.make_safe counted)
  | derive d i =>
    rw [perform]
    cases found : held[i]? with
    | none => exact .kept fun _ _ => nofun
    | some b =>
      have range := h b (List.mem_of_getElem? found)
      show Effect held _ (if d.Promised b.rows then hold held (b.derive d) else (held, none))
      by_cases promised : d.Promised b.rows
      · rw [if_pos promised]
        exact hold_effect ((Buffer.derive_safe range counted promised).mono fun fits =>
          fits b found)
      · rw [if_neg promised]
        exact .kept fun _ _ => nofun
  | joinColumns operands =>
    rw [perform]
    cases found : operands.mapM fun i => held[i]? with
    | none => exact .kept fun _ _ => nofun
    | some parts =>
      have range : ∀ p ∈ parts, p.InRange := fun p hp => h p (mem_of_mapM found p hp)
      exact hold_effect ((Buffer.joinColumns_safe range).mono fun fits => fits parts found)
  | change c i =>
    rw [perform]
    cases found : held[i]? with
    | none => exact .kept fun _ _ => nofun
    | some b =>
      obtain ⟨x, same, safe⟩ := Buffer.change_safe (h b (List.mem_of_getElem? found)) counted
      have changed : rowwise.change c b = b.replaceBy x := same
      dsimp only
      rw [changed]
      cases x with
      | ok after => exact .changed (safe.inRange after rfl)
      | error failure =>
        -- what is put back at position `i` is the buffer from there
        obtain ⟨bound, rfl⟩ := List.getElem?_eq_some_iff.1 found
        show Effect held _ (held.set i held[i], some failure)
        rw [List.set_getElem_self bound]
        refine .kept fun fits f ended => safe.no_fault fits f ?_
        rw [Option.some.inj ended]

theorem hold_raw (held : List Buffer) (x : Outcome Buffer) :
    hold (held.map Buffer.raw) (Buffer.raw <$> x) =
      Prod.map (List.map Buffer.raw) id (hold held x) := by
  cases x with
  | ok c =>
    show (held.map Buffer.raw ++ [c].map Buffer.raw, none) =
      (List.map Buffer.raw (held ++ [c]), none)
    rw [List.map_append]
  | error failure => rfl

theorem mapM_raw (held : List Buffer) (operands : List Nat) :
    (operands.mapM fun i => (held.map Buffer.raw)[i]?) =
      (operands.mapM fun i => held[i]?).map (List.map Buffer.raw) := by
  induction operands with
  | nil => rfl
  | cons i rest ih =>
    rw [List.mapM_cons, List.mapM_cons, ih, List.getElem?_map]
    cases held[i]? with
    | none => rfl
    | some b => cases rest.mapM fun i => held[i]? <;> rfl

theorem perform_raw (h : ∀ b ∈ held, b.InRange) (counted : call.Counted) :
    positional.perform (held.map Buffer.raw) call =
      Prod.map (List.map Buffer.raw) id (rowwise.perform held call) := by
  cases call with
  | make source =>
    show hold _ (RawBuffer.make source) = Prod.map _ _ (hold held (Buffer.make source))
    rw [RawBuffer.make_raw, hold_raw]
  | derive d i =>
    rw [perform, perform, List.getElem?_map]
    cases found : held[i]? with
    | none => rfl
    | some b =>
      have range := h b (List.mem_of_getElem? found)
      show (if d.Promised b.rows then hold (held.map Buffer.raw) (b.raw.derive d) else _) =
        Prod.map _ _ (if d.Promised b.rows then hold held (b.derive d) else (held, none))
      by_cases promised : d.Promised b.rows
      · rw [if_pos promised, if_pos promised, Buffer.derive_raw range counted promised, hold_raw]
      · rw [if_neg promised, if_neg promised]
        rfl
  | joinColumns operands =>
    rw [perform, perform, mapM_raw]
    cases found : operands.mapM fun i => held[i]? with
    | none => rfl
    | some parts =>
      have range : ∀ p ∈ parts, p.InRange := fun p hp => h p (mem_of_mapM found p hp)
      show hold _ (RawBuffer.joinColumns (parts.map Buffer.raw)) =
        Prod.map _ _ (hold held (Buffer.joinColumns parts))
      rw [RawBuffer.joinColumns_raw range, hold_raw]
  | change c i =>
    rw [perform, perform, List.getElem?_map]
    cases found : held[i]? with
    | none => rfl
    | some b =>
      have range := h b (List.mem_of_getElem? found)
      have changed : positional.change c b.raw = Prod.map id Buffer.raw (rowwise.change c b) :=
        Buffer.change_raw range counted
      dsimp only [Option.map_some]
      rw [changed]
      obtain ⟨ended, after⟩ := rowwise.change c b
      cases ended <;> exact Prod.ext List.map_set.symm rfl

theorem Effect.inRange {fits : Prop} {after : List Buffer × Option Failure}
    (effect : Effect held fits after) (h : ∀ b ∈ held, b.InRange) :
    ∀ b ∈ after.1, b.InRange := by
  cases effect with
  | kept => exact h
  | made good => exact List.forall_mem_append.2 ⟨h, List.forall_mem_singleton.2 good⟩
  | changed good =>
    intro b hb
    rcases List.mem_or_eq_of_mem_set hb with hb | rfl
    · exact h b hb
    · exact good

/-- A call that fails leaves the raw buffers as they were, and is no fault if its shape fits. -/
theorem perform_failed (h : ∀ b ∈ held, b.InRange) (counted : call.Counted)
    {after : List RawBuffer} {failure : Failure}
    (ended : positional.perform (held.map Buffer.raw) call = (after, some failure)) :
    after = held.map Buffer.raw ∧ (call.Fits held → ∀ f, failure ≠ .fault f) := by
  have effect := perform_effect h counted
  rw [perform_raw h counted] at ended
  generalize rowwise.perform held call = ends at ended effect
  cases effect with
  | kept fine =>
    cases ended
    exact ⟨rfl, fun fits f same => fine fits f (congrArg some same)⟩
  | made | changed => cases ended

/-- A row written over in the buffer at one position. -/
theorem perform_setRow {b c : Buffer} {i k : Nat} {values : Array Scalar}
    (there : held[k]? = some b) (put : b.setRow i values = .ok c) :
    rowwise.perform held (.change (.setRow i values) k) = (held.set k c, none) := by
  have changed : rowwise.change (.setRow i values) b = (.ok (), c) := by
    show b.replaceBy (b.setRow i values) = _
    rw [put]
    rfl
  rw [perform, there]
  dsimp only
  rw [changed]

theorem perform_setRow_refused {b : Buffer} {i k : Nat} {values : Array Scalar}
    (there : held[k]? = some b) (bad : ¬ (i < b.rows ∧ values.size = b.cols)) :
    ∃ e, rowwise.perform held (.change (.setRow i values) k) = (held, some (.refused e)) := by
  obtain ⟨e, refused⟩ : ∃ e, b.setRow i values = .error (.refused e) := by
    rw [Buffer.setRow]
    split
    · rename_i hi
      rw [dif_neg fun size => bad ⟨hi, size⟩]
      exact ⟨_, rfl⟩
    · exact ⟨_, rfl⟩
  have changed : rowwise.change (.setRow i values) b = (.error (.refused e), b) := by
    show b.replaceBy (b.setRow i values) = _
    rw [refused]
    rfl
  obtain ⟨bound, rfl⟩ := List.getElem?_eq_some_iff.1 there
  rw [perform, there]
  dsimp only
  rw [changed]
  exact ⟨e, by dsimp only; rw [List.set_getElem_self bound]⟩

theorem performAll_append {β : Type} (k : Carrier β) (calls : List BufferCall) (call : BufferCall) :
    k.performAll (calls ++ [call]) = (k.perform (k.performAll calls) call).1 := by
  rw [performAll, List.foldl_append]
  rfl

theorem performAll_inRange (counted : ∀ call ∈ calls, call.Counted) :
    ∀ b ∈ rowwise.performAll calls, b.InRange := by
  induction calls using List.reverseRecOn with
  | nil => simp [performAll]
  | append_singleton before last ih =>
    obtain ⟨earlier, now⟩ := List.forall_mem_append.1 counted
    rw [performAll_append]
    exact (perform_effect (ih earlier) (List.forall_mem_singleton.1 now)).inRange (ih earlier)

theorem performAll_raw (counted : ∀ call ∈ calls, call.Counted) :
    positional.performAll calls = (rowwise.performAll calls).map Buffer.raw := by
  induction calls using List.reverseRecOn with
  | nil => rfl
  | append_singleton before last ih =>
    obtain ⟨earlier, now⟩ := List.forall_mem_append.1 counted
    rw [performAll_append, performAll_append, ih earlier,
      perform_raw (performAll_inRange earlier) (List.forall_mem_singleton.1 now)]
    rfl

end Carrier

/-! ## The storage of a buffer -/

/-- The storage fits the shape, the rows are all of it, and the buffer can be made from either. -/
structure RawBuffer.Whole (b : RawBuffer) : Prop where
  size : b.data.size = b.rows * b.cols
  rows : ∃ rows, b.iterRows = .ok rows ∧ rows.length = b.rows ∧ (∀ row ∈ rows, row.size = b.cols) ∧
    rows.toArray.flatten = b.data ∧ ofRowsOfWidth rows b.cols = .ok b
  flat : ofFlat b.data b.rows b.cols = .ok b

namespace Buffer

variable {b c : Buffer} {i : Nat} {values : Array Scalar}

theorem whole (h : b.InRange) : b.raw.Whole := by
  have fits : b.rows * b.cols < limit := b.size_data ▸ h.size
  have again : RawBuffer.ofRowsOfWidth b.rowList b.cols = .ok b.raw := by
    rw [RawBuffer.ofRowsOfWidth_raw, ofRowsOfWidth_eq_ok.2 ⟨rfl, rfl⟩]
    rfl
  have flat : RawBuffer.ofFlat b.data b.rows b.cols = .ok b.raw := by
    rw [RawBuffer.ofFlat_raw, ofFlat, if_pos fits, dif_pos b.size_data]
    rfl
  have data : b.rowList.toArray.flatten = b.data := by
    rw [RawBuffer.ofRowsOfWidth] at again
    split at again
    · cases again
    · exact congrArg RawBuffer.data (Except.ok.inj again)
  exact ⟨b.size_data, ⟨b.rowList, RawBuffer.iterRows_raw h, length_rowList b,
    fun row => size_of_mem_rowList, data, again⟩, flat⟩

/-- A row that is written over: its values are new, and no other value is. -/
theorem getElem?_setRow (put : b.setRow i values = .ok c) (p : Nat) : c.data[p]? =
    if i * b.cols ≤ p ∧ p < (i + 1) * b.cols then values[p - i * b.cols]? else b.data[p]? := by
  rw [setRow] at put
  split at put
  · split at put
    · rename_i hi size
      cases put
      have inside := InRange.stop_le b hi
      have step : (i + 1) * b.cols = i * b.cols + b.cols := Nat.succ_mul i b.cols
      show (_ ++ values ++ _ : Array Scalar)[p]? = _
      rw [Array.getElem?_append, Array.getElem?_append, Array.size_append, Array.size_extract, size,
        Nat.sub_zero, Nat.min_eq_left (by omega)]
      rcases Nat.lt_or_ge p (i * b.cols) with before | from'
      · rw [if_pos (by omega), if_pos before, if_neg (by omega),
          Array.getElem?_extract, if_pos (by omega), Nat.zero_add]
      · rcases Nat.lt_or_ge p ((i + 1) * b.cols) with here | after
        · rw [if_pos (by omega), if_neg (by omega), if_pos ⟨from', here⟩]
        · have place : (i + 1) * b.cols + (p - (i * b.cols + b.cols)) = p := by omega
          rw [if_neg (by omega), if_neg (by omega), Array.getElem?_extract, place]
          split
          · rfl
          · exact (Array.getElem?_eq_none (by omega)).symm
    · cases put
  · cases put

end Buffer

/-! ## Sessions -/

namespace RawBuffer

open Carrier (positional rowwise)

/-- **Raw buffers keep their form.**  Whatever is called, the raw buffers that are held are those
    made of whole rows: their storage fits their shape, their rows are all of it, and each can be
    made again from either.  A call that fails changes nothing, and one whose shape fits is never
    a fault; a row that is written over changes in its own values only. -/
theorem held_whole {calls : List BufferCall} (counted : ∀ call ∈ calls, call.Counted)
    {held : List Buffer} (session : held = rowwise.performAll calls) :
    positional.performAll calls = held.map Buffer.raw ∧
      (∀ b ∈ positional.performAll calls, b.Whole) ∧
      ∀ next : BufferCall, next.Counted →
        (∀ after failure, positional.perform (held.map Buffer.raw) next = (after, some failure) →
          after = held.map Buffer.raw) ∧
        (next.Fits held → ∀ after f,
          positional.perform (held.map Buffer.raw) next ≠ (after, some (.fault f))) ∧
        ∀ i values k b, next = .change (.setRow i values) k → held[k]? = some b →
          if i < b.rows ∧ values.size = b.cols then ∃ c : Buffer,
            positional.perform (held.map Buffer.raw) next = ((held.set k c).map Buffer.raw, none) ∧
              c.rows = b.rows ∧ c.cols = b.cols ∧ ∀ p, c.data[p]? =
                if i * b.cols ≤ p ∧ p < (i + 1) * b.cols then values[p - i * b.cols]?
                else b.data[p]?
          else ∃ e, positional.perform (held.map Buffer.raw) next =
            (held.map Buffer.raw, some (.refused e)) := by
  subst session
  have range := Carrier.performAll_inRange counted
  have same := Carrier.performAll_raw counted
  refine ⟨same, ?_, fun next now => ?_⟩
  · rw [same]
    intro c hc
    obtain ⟨b, hb, rfl⟩ := List.mem_map.1 hc
    exact Buffer.whole (range b hb)
  · refine ⟨fun after failure ended => (Carrier.perform_failed range now ended).1,
      fun fits after f ended => (Carrier.perform_failed range now ended).2 fits f rfl,
      fun i values k b setRow there => ?_⟩
    have raw := Carrier.perform_raw range now
    subst setRow
    split
    · rename_i good
      obtain ⟨c, put⟩ := Buffer.exists_setRow good.1 good.2
      obtain ⟨-, rows, cols, -⟩ := Buffer.setRow_eq_ok.1 put
      refine ⟨c, ?_, rows, cols, Buffer.getElem?_setRow put⟩
      rw [raw, Carrier.perform_setRow there put]
      rfl
    · rename_i bad
      obtain ⟨e, refused⟩ := Carrier.perform_setRow_refused there bad
      refine ⟨e, ?_⟩
      rw [raw, refused]
      rfl

/-- Two rows, none of their columns, and both side by side; a third row is refused, and the second
    is written over. -/
theorem held_whole_crossed : ∃ (calls : List BufferCall) (held : List Buffer),
    (∀ call ∈ calls, call.Counted) ∧ held = rowwise.performAll calls ∧ held.length = 3 ∧
      (∀ b ∈ positional.performAll calls, b.Whole) ∧
      (∃ e, positional.perform (held.map Buffer.raw) (.change (.setRow 2 #[0, 0]) 0) =
        (held.map Buffer.raw, some (.refused e))) ∧
      ∃ c : Buffer, positional.perform (held.map Buffer.raw) (.change (.setRow 1 #[0, 0]) 0) =
        ((held.set 0 c).map Buffer.raw, none) ∧ c.data[1]? = some 1 ∧ c.data[2]? = some 0 := by
  let calls : List BufferCall :=
    [.make (.flat #[0, 1, 1, 0] 2 2), .derive (.columns 1 1) 0, .joinColumns [1, 0]]
  have counted : ∀ call ∈ calls, call.Counted := by
    simp [calls, BufferCall.Counted, BufferSource.Counted, BufferDerivation.Counted, limit]
  have first : (rowwise.performAll calls)[0]? = some .crossed := rfl
  obtain ⟨-, whole, next⟩ := held_whole counted rfl
  obtain ⟨-, -, third⟩ := next (.change (.setRow 2 #[0, 0]) 0) (show 2 < limit by decide)
  obtain ⟨-, -, second⟩ := next (.change (.setRow 1 #[0, 0]) 0) (show 1 < limit by decide)
  obtain ⟨c, put, -, -, values⟩ := second 1 #[0, 0] 0 .crossed rfl first
  exact ⟨calls, _, counted, rfl, rfl, whole, third 2 #[0, 0] 0 .crossed rfl first, c, put, values 1,
    values 2⟩

end RawBuffer

end MessagePassing

import Terraboot.Lpc176xStage

/-!
# Sessions with the LPC176x Driver

What can be told apart by calls. Whether blocks are staged shows at the first block of any unit;
which unit they belong to shows at the next block of it; what they are shows when the flash content
is sent for the rest of the unit, which the driver accepts unless it is stuck. The count shows once
nothing is staged.

## Main results

* `Lpc176x.indist_iff`: two states with the same flash content cannot be told apart exactly if
  they are at the `SameStage`.
-/

open LittleEndian NorFlash Paging

namespace Terraboot

namespace Lpc176x

variable {rom : IapRom} {cfg : Config} {st st' : FlashState} {f f' : Flash}

/-! ### One call -/

section Call

variable {a : ℕ} {data : List Byte}

theorem write_of_indist (hcfg : IsBuild cfg)
    (h : (board rom cfg).flashMachine.Indist (st, f) (st', f'))
    (hrange : flashcmdBlockInRange cfg a = true) (hdata : data.length = 64) :
    ((flashWriteBlock rom 64 st f a data).1 < 0 ↔ (flashWriteBlock rom 64 st' f' a data).1 < 0) ∧
      (board rom cfg).flashMachine.Indist (flashWriteBlock rom 64 st f a data).2
        (flashWriteBlock rom 64 st' f' a data).2 := by
  have hout := h.output (.write a data hrange hdata)
  have hstep := h.step (.write a data hrange hdata)
  obtain ⟨hwrite, -⟩ := flashMachine_eq hcfg rom (st, f)
  obtain ⟨hwrite', -⟩ := flashMachine_eq hcfg rom (st', f')
  rw [(hwrite a data hrange hdata).2, (hwrite' a data hrange hdata).2] at hout
  rw [(hwrite a data hrange hdata).1, (hwrite' a data hrange hdata).1] at hstep
  refine ⟨?_, hstep⟩
  split_ifs at hout with hneg hneg' hneg'
  · exact iff_of_true hneg hneg'
  · exact iff_of_false hneg hneg'

theorem complete_of_indist (hcfg : IsBuild cfg)
    (h : (board rom cfg).flashMachine.Indist (st, f) (st', f')) :
    (board rom cfg).flashMachine.Indist (flashComplete rom 64 st f).2
      (flashComplete rom 64 st' f').2 := by
  have hstep := h.step .complete
  obtain ⟨-, hcomplete, -⟩ := flashMachine_eq hcfg rom (st, f)
  obtain ⟨-, hcomplete', -⟩ := flashMachine_eq hcfg rom (st', f')
  rwa [hcomplete, hcomplete'] at hstep

/-- **Whether anything is staged can be seen**: if not, the first block of the application area is
taken. -/
theorem staged_of_indist (hcfg : IsBuild cfg)
    (h : (board rom cfg).flashMachine.Indist (st, f) (st', f')) (hstaged : st.staged = 0) :
    st'.staged = 0 := by
  by_contra hne
  have hlaunch := hcfg.launch
  have hend := hcfg.flashEnd
  have hrange := (hcfg.inRange (a := cfg.launchAppAddress) le_rfl (by omega)).2
  have hzeros : (List.replicate 64 (0 : Byte)).length = 64 := List.length_replicate
  have hout := (write_of_indist hcfg h hrange hzeros).1
  have hnext : cfg.launchAppAddress ≠ st'.nextAddress := by
    rintro heq
    rw [FlashState.staged, ← heq, hlaunch] at hne
    exact hne rfl
  rw [flashWriteBlock_stages rom (by omega) (.inr ⟨by omega, hstaged⟩) (by omega),
    flashWriteBlock_out_of_order rom (by omega) hnext (.inr (Nat.pos_of_ne_zero hne))] at hout
  exact absurd (hout.mpr (show (-2 : ℤ) < 0 by decide)) (lt_irrefl (0 : ℤ))

end Call

/-! ### Sending the rest of a unit -/

section Fill

variable {u : ℕ}

/-- All blocks but the last of the unit at `u`, from offset `64 * (3 - n)` on, with the content
of `w`. -/
theorem exists_fill (hcfg : IsBuild cfg) (rom : IapRom) (hu : u % 256 = 0)
    (hlo : cfg.launchAppAddress ≤ u) (hhi : u + 256 ≤ cfg.flashEnd) (w : Mem) {n : ℕ} (hn : n ≤ 3) :
    ∃ calls : List (FlashCall (board rom cfg).cfg), ∀ (st : FlashState) (f : Flash),
      st.iapBuf.length = 256 → st.nextAddress = u + 64 * (3 - n) →
      ∃ buf, (board rom cfg).flashMachine.after (st, f) calls =
          (⟨buf, u + 192, st.pageWriteCount⟩, f) ∧ buf.length = 256 ∧
        ∀ i < 192, buf.getD i 0 = if i < 64 * (3 - n) then st.iapBuf.getD i 0 else w (u + i) := by
  induction n with
  | zero =>
      refine ⟨[], fun st f hlen hnext => ⟨st.iapBuf, ?_, hlen, fun i hi => (if_pos hi).symm⟩⟩
      have hnext : st.nextAddress = u + 192 := hnext
      rw [← hnext]
      rfl
  | succ n ih =>
      obtain ⟨calls, hcalls⟩ := ih (by omega)
      have hrange := (hcfg.inRange (a := u + 64 * (3 - (n + 1))) (by omega) (by omega)).2
      have hread : (read w (u + 64 * (3 - (n + 1))) 64).length = 64 := read_length _ _ _
      refine ⟨.write (u + 64 * (3 - (n + 1))) (read w (u + 64 * (3 - (n + 1))) 64) hrange hread ::
        calls, fun st f hlen hnext => ?_⟩
      have hmod : (u + 64 * (3 - (n + 1))) % 256 = 64 * (3 - (n + 1)) := by omega
      have hfits : 64 * (3 - (n + 1)) + (read w (u + 64 * (3 - (n + 1))) 64).length ≤
          st.iapBuf.length := by omega
      obtain ⟨buf, hafter, hbuf, hbytes⟩ := hcalls
        ⟨overwrite st.iapBuf (64 * (3 - (n + 1))) (read w (u + 64 * (3 - (n + 1))) 64),
          u + 64 * (3 - (n + 1)) + 64, st.pageWriteCount⟩ f
        ((overwrite_length hfits).trans hlen) (by dsimp only; omega)
      refine ⟨buf, ?_, hbuf, fun i hi => ?_⟩
      · have hstep := ((flashMachine_eq hcfg rom (st, f)).1 _ _ hrange hread).1
        rw [flashWriteBlock_stages rom (by omega) (.inl hnext) (by omega), hmod] at hstep
        exact (congrArg ((board rom cfg).flashMachine.after · calls) hstep).trans hafter
      · rw [hbytes i hi]
        dsimp only
        rw [overwrite_getD hfits, hread]
        by_cases hold : i < 64 * (3 - (n + 1))
        · rw [if_pos hold, if_pos (by omega), if_neg (by omega)]
        · rw [if_neg hold]
          by_cases hnew : i < 64 * (3 - n)
          · rw [if_pos hnew, if_pos (by omega), read_getD w _ (by omega)]
            congr 1
            omega
          · rw [if_neg hnew]

/-- A whole unit is sent to a state with nothing staged. -/
theorem exists_unit (hrom : rom.Succeeds) (hcfg : IsBuild cfg) (hu : u % 256 = 0)
    (hlo : cfg.launchAppAddress ≤ u) (hhi : u + 256 ≤ cfg.flashEnd) {data : List Byte}
    (hdata : data.length = 256) :
    ∃ calls : List (FlashCall (board rom cfg).cfg), ∀ (st : FlashState) (f : Flash),
      st.iapBuf.length = 256 → st.staged = 0 → Accepted f.mem u data →
      ∃ f', (board rom cfg).flashMachine.after (st, f) calls =
        (⟨data, u + 256, st.pageWriteCount + acceptedCount f.mem u data⟩, f') := by
  have hend := hcfg.flashEnd
  -- the unit as the content of a flash
  have hw : ∀ i < 256, write (fun _ => 0) u data (u + i) = data.getD i 0 := by
    intro i hi
    rw [write_of_mem _ ⟨by omega, by omega⟩, Nat.add_sub_cancel_left]
  generalize write (fun _ => 0) u data = w at hw
  have hread : ∀ a, (read w a 64).length = 64 := fun a => read_length _ _ _
  have hfirst := (hcfg.inRange (a := u) hlo (by omega)).2
  have hlast := (hcfg.inRange (a := u + 192) (by omega) (by omega)).2
  obtain ⟨calls, hcalls⟩ := exists_fill hcfg rom hu hlo hhi w (n := 2) (by omega)
  refine ⟨.write u (read w u 64) hfirst (hread _) ::
    (calls ++ [.write (u + 192) (read w (u + 192) 64) hlast (hread _)]), fun st f hlen hstaged haccepted => ?_⟩
  have hfits : 0 + (read w u 64).length ≤ st.iapBuf.length := by rw [hread]; omega
  obtain ⟨buf, hafter, hbuf, hbytes⟩ := hcalls
    ⟨overwrite st.iapBuf 0 (read w u 64), u + 64, st.pageWriteCount⟩ f
    ((overwrite_length hfits).trans hlen) rfl
  have hfull : overwrite buf 192 (read w (u + 192) 64) = data := by
    have hfits' : 192 + (read w (u + 192) 64).length ≤ buf.length := by rw [hread]; omega
    refine eq_of_getD_eq ((overwrite_length hfits').trans hbuf) hdata fun i hi => ?_
    rw [overwrite_getD hfits', hread, ← hw i hi]
    by_cases hin : i < 192
    · rw [if_neg (by omega), hbytes i hin]
      dsimp only
      rw [overwrite_getD hfits, hread]
      split_ifs
      · rw [read_getD w u (by omega), Nat.sub_zero]
      · omega
      · rfl
    · rw [if_pos (by omega), read_getD w _ (by omega), Nat.add_assoc, Nat.add_sub_cancel' (by omega)]
  have hnext : (⟨buf, u + 192, st.pageWriteCount⟩ : FlashState).nextAddress = u + 192 := rfl
  obtain ⟨g, hwrite, -⟩ := flashWriteBlock_accepted (f := f) hrom hu (by omega) hnext hbuf
    (hread (u + 192)) (by rwa [hfull])
  have hstep := ((flashMachine_eq hcfg rom (st, f)).1 _ _ hfirst (hread u)).1
  have hstep' := ((flashMachine_eq hcfg rom
    (⟨buf, u + 192, st.pageWriteCount⟩, f)).1 _ _ hlast (hread (u + 192))).1
  rw [flashWriteBlock_stages rom (by omega) (.inr ⟨hu, hstaged⟩) (by omega), hu] at hstep
  rw [hwrite, hfull] at hstep'
  refine ⟨g, ?_⟩
  rw [Mealy.after, List.foldl_cons, List.foldl_append, hstep]
  have hafter : List.foldl (board rom cfg).flashMachine.step
    (⟨overwrite st.iapBuf 0 (read w u 64), u + 64, st.pageWriteCount⟩, f) calls = _ := hafter
  rw [hafter, List.foldl_cons, List.foldl_nil, hstep']

end Fill

/-! ### The count -/

theorem inArea_after (hrom : rom.Succeeds) (hcfg : IsBuild cfg) (h : InArea cfg st)
    (calls : List (FlashCall (board rom cfg).cfg)) :
    InArea cfg ((board rom cfg).flashMachine.after (st, f) calls).1 :=
  Mealy.after_invariant (P := fun s : FlashState × Flash => InArea cfg s.1)
    (inArea_step hrom hcfg) h calls

/-- **The count can be seen where nothing is staged**: units at the start of the application area
that are not what is there count it up, and it shows when it is zero. -/
theorem count_of_indist (hrom : rom.Succeeds) (hcfg : IsBuild cfg) (h : InArea cfg st)
    (h' : InArea cfg st') (hstaged : st.staged = 0) (hstaged' : st'.staged = 0)
    (hindist : (board rom cfg).flashMachine.Indist (st, f) (st', f')) :
    st.pageWriteCount = st'.pageWriteCount := by
  have hlaunch := hcfg.launch
  have hend := hcfg.flashEnd
  refine Mealy.Indist.count_eq (P := fun s t => (InArea cfg s.1 ∧ InArea cfg t.1) ∧
    s.1.staged = 0 ∧ t.1.staged = 0) Mealy.exists_add_nsmul_one_eq_zero
    (fun s : FlashState × Flash => s.1.pageWriteCount) ?_ ?_ ⟨⟨h, h'⟩, hstaged, hstaged'⟩ hindist
  · rintro ⟨st, f⟩ ⟨st', f'⟩ ⟨-, hstaged, hstaged'⟩ hindist hzero
    have hzero : st.pageWriteCount = 0 := hzero
    have hout := hindist.output .complete
    obtain ⟨-, -, hcomplete⟩ := flashMachine_eq hcfg rom (st, f)
    obtain ⟨-, -, hcomplete'⟩ := flashMachine_eq hcfg rom (st', f')
    rw [hcomplete, hcomplete', flashComplete_empty rom hstaged, flashComplete_empty rom hstaged',
      hzero] at hout
    exact ofInt_result_zero hout
  · rintro ⟨st, f⟩ ⟨st', f'⟩ ⟨⟨h, h'⟩, hstaged, hstaged'⟩ hindist
    have hmem : f.mem = f'.mem := hindist.view
    obtain ⟨data, hdata, hne⟩ := exists_read_ne f.mem cfg.launchAppAddress (n := 256) (by omega)
    have hstart : sectorMap.start cfg.launchAppAddress = cfg.launchAppAddress := hcfg.launch_aligned
    have hcount : acceptedCount f.mem cfg.launchAppAddress data = 1 := by
      rw [acceptedCount, if_pos hstart]
      exact if_neg fun hfound => hne hfound.2.1
    obtain ⟨calls, hcalls⟩ := exists_unit hrom hcfg (by omega) (le_refl cfg.launchAppAddress)
      (by omega) hdata
    obtain ⟨g, hafter⟩ := hcalls st f h.length hstaged (.inl hstart)
    obtain ⟨g', hafter'⟩ := hcalls st' f' h'.length hstaged' (.inl hstart)
    rw [hcount] at hafter
    rw [← hmem, hcount] at hafter'
    refine ⟨_, _, ⟨⟨inArea_after hrom hcfg h calls, inArea_after hrom hcfg h' calls⟩, ?_, ?_⟩,
      hindist.after calls, congrArg (fun s => s.1.pageWriteCount) hafter,
      congrArg (fun s => s.1.pageWriteCount) hafter'⟩
    · rw [hafter]
      exact staged_eq_zero (by omega) _ _
    · rw [hafter']
      exact staged_eq_zero (by omega) _ _

/-! ### Staged blocks -/

section Staged

variable {m : Mem}

/-- The unit if the flash content `m` is sent for the rest of it. -/
def FlashState.continued (m : Mem) (st : FlashState) : List Byte :=
  (List.range 256).map fun i => if i < st.staged then st.iapBuf.getD i 0 else m (st.unit + i)

theorem FlashState.continued_length (m : Mem) (st : FlashState) : (st.continued m).length = 256 := by
  rw [FlashState.continued, List.length_map, List.length_range]

theorem FlashState.continued_getD (m : Mem) (st : FlashState) {i : ℕ} (hi : i < 256) :
    (st.continued m).getD i 0 =
      if i < st.staged then st.iapBuf.getD i 0 else m (st.unit + i) := by
  have hlen : i < ((List.range 256).map fun i =>
      if i < st.staged then st.iapBuf.getD i 0 else m (st.unit + i)).length := by
    rw [List.length_map, List.length_range]
    exact hi
  rw [FlashState.continued, List.getD_eq_getElem _ _ hlen, List.getElem_map, List.getElem_range]

/-- **What stuck states have in common**: not even the flash content is accepted. -/
theorem accepted_continued_iff (hstaged : 0 < st.staged) :
    Accepted m st.unit (st.continued m) ↔ ¬Stuck m st := by
  have hlt : st.staged < 256 := Nat.mod_lt _ (by decide)
  constructor
  · refine fun haccepted hs => hs.not_accepted (fun i hi => ?_) haccepted
    rw [FlashState.continued_getD m st (by omega), if_pos hi]
  · intro hs
    by_contra hrefused
    obtain ⟨hlater, hrefused⟩ := not_or.mp hrefused
    obtain ⟨hused, hne⟩ := not_not.mp hrefused
    refine hs ⟨hstaged, hlater, hused, ?_⟩
    by_contra hsame
    refine hne (eq_read_of_getD_eq (FlashState.continued_length m st) fun i hi => ?_)
    rw [FlashState.continued_getD m st hi]
    split_ifs with hin
    · by_contra hdiffers
      exact hsame ⟨i, hin, hdiffers⟩
    · rfl

/-- The rest of the unit is sent, up to its last block. -/
theorem exists_continued (hcfg : IsBuild cfg) (rom : IapRom) {u k : ℕ} (hu : u % 256 = 0)
    (hk : k % 64 = 0) (hpos : 0 < k) (hlt : k < 256) (hlo : cfg.launchAppAddress ≤ u)
    (hhi : u + 256 ≤ cfg.flashEnd) (m : Mem) :
    ∃ calls : List (FlashCall (board rom cfg).cfg), ∀ (st : FlashState) (f : Flash),
      st.iapBuf.length = 256 → st.nextAddress = u + k →
      ∃ buf, (board rom cfg).flashMachine.after (st, f) calls =
          (⟨buf, u + 192, st.pageWriteCount⟩, f) ∧ buf.length = 256 ∧
        overwrite buf 192 (read m (u + 192) 64) = st.continued m := by
  obtain ⟨calls, hcalls⟩ := exists_fill hcfg rom hu hlo hhi m (n := 3 - k / 64) (by omega)
  refine ⟨calls, fun st f hlen hnext => ?_⟩
  have hoff : 64 * (3 - (3 - k / 64)) = k := by omega
  obtain ⟨buf, hafter, hbuf, hbytes⟩ := hcalls st f hlen (by rw [hoff]; exact hnext)
  have hread : (read m (u + 192) 64).length = 64 := read_length _ _ _
  have hfits : 192 + (read m (u + 192) 64).length ≤ buf.length := by rw [hread]; omega
  have hstaged : st.staged = k := by
    rw [FlashState.staged, hnext]
    omega
  have hunit : st.unit = u := by
    rw [FlashState.unit, hnext]
    omega
  refine ⟨buf, hafter, hbuf, eq_of_getD_eq ((overwrite_length hfits).trans hbuf)
    (FlashState.continued_length m st) fun i hi => ?_⟩
  rw [overwrite_getD hfits, hread, FlashState.continued_getD m st hi, hstaged, hunit]
  by_cases hin : i < 192
  · rw [if_neg (by omega), hbytes i hin, hoff]
  · rw [if_pos (by omega), if_neg (by omega), read_getD m _ (by omega), Nat.add_assoc,
      Nat.add_sub_cancel' (by omega)]

/-- **The staged bytes can be seen** as far as they make a difference to the flash, if the states
are not stuck. -/
theorem continued_of_indist (hrom : rom.Succeeds) (hcfg : IsBuild cfg) (h : InArea cfg st)
    (h' : InArea cfg st') (hstaged : 0 < st.staged) (hnext : st.nextAddress = st'.nextAddress)
    (hmem : f.mem = f'.mem) (hindist : (board rom cfg).flashMachine.Indist (st, f) (st', f')) :
    (Stuck f.mem st ↔ Stuck f.mem st') ∧
      (¬Stuck f.mem st →
        st.pageWriteCount + acceptedCount f.mem st.unit (st.continued f.mem) =
          st'.pageWriteCount + acceptedCount f.mem st.unit (st'.continued f.mem) ∧
        acceptedMem f.mem st.unit (st.continued f.mem) =
          acceptedMem f.mem st.unit (st'.continued f.mem)) := by
  obtain ⟨haddr, hunit, hmod, hlt, hlo, hhi⟩ := h.unit_spec hcfg hstaged
  have hend := hcfg.flashEnd
  have hsame : st'.unit = st.unit := by rw [FlashState.unit, FlashState.unit, hnext]
  have hstaged' : 0 < st'.staged := by rwa [FlashState.staged, ← hnext]
  have hiff := accepted_continued_iff (m := f.mem) hstaged
  have hiff' := accepted_continued_iff (m := f.mem) hstaged'
  rw [hsame] at hiff'
  have hread : (read f.mem (st.unit + 192) 64).length = 64 := read_length _ _ _
  have hrange := (hcfg.inRange (a := st.unit + 192) (by omega) (by omega)).2
  obtain ⟨calls, hcalls⟩ := exists_continued hcfg rom hunit hmod hstaged hlt hlo hhi f.mem
  obtain ⟨buf, hafter, hbuf, hfull⟩ := hcalls st f h.length haddr
  obtain ⟨buf', hafter', hbuf', hfull'⟩ := hcalls st' f' h'.length (hnext.symm.trans haddr)
  have hrest := hindist.after calls
  have hin := inArea_after (f := f) hrom hcfg h calls
  have hin' := inArea_after (f := f') hrom hcfg h' calls
  rw [hafter] at hrest hin
  rw [hafter'] at hrest hin'
  obtain ⟨hout, hlast⟩ := write_of_indist hcfg hrest hrange hread
  have hat : (⟨buf, st.unit + 192, st.pageWriteCount⟩ : FlashState).nextAddress = st.unit + 192 := rfl
  have hat' : (⟨buf', st.unit + 192, st'.pageWriteCount⟩ : FlashState).nextAddress = st.unit + 192 :=
    rfl
  -- whether the last block is accepted
  have hneg : ∀ {b : List Byte} {c : Word} {g : Flash}, g.mem = f.mem → b.length = 256 →
      ((flashWriteBlock rom 64 ⟨b, st.unit + 192, c⟩ g (st.unit + 192)
        (read f.mem (st.unit + 192) 64)).1 < 0 ↔
        ¬Accepted f.mem st.unit (overwrite b 192 (read f.mem (st.unit + 192) 64))) := by
    intro b c g hg hb
    have hat : (⟨b, st.unit + 192, c⟩ : FlashState).nextAddress = st.unit + 192 := rfl
    by_cases haccepted : Accepted g.mem st.unit (overwrite b 192 (read f.mem (st.unit + 192) 64))
    · obtain ⟨g', hwrite, -⟩ := flashWriteBlock_accepted hrom hunit (by omega) hat hb hread haccepted
      rw [hwrite]
      exact iff_of_false (lt_irrefl (0 : ℤ)) (not_not.mpr (hg ▸ haccepted))
    · rw [flashWriteBlock_not_accepted hrom hunit (by omega) hat hb hread haccepted]
      exact iff_of_true (show (-2 : ℤ) < 0 by decide) (hg ▸ haccepted)
  rw [hneg rfl hbuf, hneg hmem.symm hbuf', hfull, hfull', hiff, hiff', not_not, not_not] at hout
  refine ⟨hout, fun hs => ?_⟩
  have haccepted := hiff.mpr hs
  have haccepted' := hiff'.mpr (mt hout.mpr hs)
  rw [← hfull] at haccepted
  rw [← hfull', hmem] at haccepted'
  obtain ⟨g, hwrite, hg⟩ := flashWriteBlock_accepted hrom hunit (by omega) hat hbuf hread haccepted
  obtain ⟨g', hwrite', hg'⟩ := flashWriteBlock_accepted hrom hunit (by omega) hat' hbuf'
    (by rw [← hmem]; exact hread) haccepted'
  rw [← hmem] at hwrite' hg'
  rw [hfull'] at hwrite' hg'
  rw [hfull] at hwrite hg
  have hwritten := hin.write hrom hcfg (a := st.unit + 192) (by omega) (by omega) hread f
  have hwritten' := hin'.write hrom hcfg (a := st.unit + 192) (by omega) (by omega) hread f'
  rw [hwrite] at hlast hwritten
  rw [hwrite'] at hlast hwritten'
  refine ⟨?_, ?_⟩
  · exact count_of_indist hrom hcfg hwritten hwritten' (staged_eq_zero hunit _ _)
      (staged_eq_zero hunit _ _) hlast
  · have hview : g.mem = g'.mem := hlast.view
    rwa [hg, hg'] at hview

/-- **Where the next block goes can be seen**, unless the driver is stuck at the last block of a
unit. -/
theorem stuck_of_next_ne (hrom : rom.Succeeds) (hcfg : IsBuild cfg) (h : InArea cfg st)
    (hstaged : 0 < st.staged) (hstaged' : 0 < st'.staged) (hnext : st.nextAddress ≠ st'.nextAddress)
    (hindist : (board rom cfg).flashMachine.Indist (st, f) (st', f')) :
    Stuck f.mem st ∧ st.staged = 192 := by
  obtain ⟨haddr, hunit, hmod, hlt, hlo, hhi⟩ := h.unit_spec hcfg hstaged
  have hend := hcfg.flashEnd
  have hrange := (hcfg.inRange (a := st.nextAddress) (by omega) (by omega)).2
  -- a block that the second state refuses is refused by the first
  have hrefused : ∀ data : List Byte, data.length = 64 →
      (flashWriteBlock rom 64 st f st.nextAddress data).1 < 0 := by
    intro data hdata
    refine (write_of_indist hcfg hindist hrange hdata).1.mpr ?_
    rw [flashWriteBlock_out_of_order rom h.blocks hnext (.inr hstaged')]
    exact show (-2 : ℤ) < 0 by decide
  have hlast : st.staged = 192 := by
    by_contra hmid
    have hneg := hrefused (List.replicate 64 0) List.length_replicate
    rw [flashWriteBlock_stages rom h.blocks (.inl rfl) hmid] at hneg
    exact absurd hneg (lt_irrefl (0 : ℤ))
  refine ⟨?_, hlast⟩
  by_contra hs
  rw [hlast] at haddr
  have hread : (read f.mem (st.unit + 192) 64).length = 64 := read_length _ _ _
  have hfits : 192 + (read f.mem (st.unit + 192) 64).length ≤ st.iapBuf.length := by
    rw [hread, h.length]
  have hfull : overwrite st.iapBuf 192 (read f.mem (st.unit + 192) 64) = st.continued f.mem := by
    refine eq_of_getD_eq ((overwrite_length hfits).trans h.length)
      (FlashState.continued_length f.mem st) fun i hi => ?_
    rw [overwrite_getD hfits, hread, FlashState.continued_getD f.mem st hi, hlast]
    by_cases hin : i < 192
    · rw [if_neg (by omega), if_pos hin]
    · rw [if_pos (by omega), if_neg hin, read_getD f.mem _ (by omega), Nat.add_assoc,
        Nat.add_sub_cancel' (by omega)]
  have hneg := hrefused _ hread
  obtain ⟨g, hwrite, -⟩ := flashWriteBlock_accepted (f := f) hrom hunit (by omega) haddr h.length
    hread (by rw [hfull]; exact (accepted_continued_iff hstaged).mpr hs)
  rw [haddr, hwrite] at hneg
  exact absurd hneg (lt_irrefl (0 : ℤ))

/-- Over a place that looks blank, whether the staged bytes can be stored shows once they have been
completed: they are in the way if not. -/
theorem spoiled_of_indist (hrom : rom.Succeeds) (hcfg : IsBuild cfg) (h : InArea cfg st)
    (h' : InArea cfg st') (hstaged : 0 < st.staged) (hnext : st.nextAddress = st'.nextAddress)
    (hmem : f.mem = f'.mem) (hlater : sectorMap.start st.unit ≠ st.unit)
    (hblank : Blank f.mem st.unit 64) {j : ℕ} (hj : j < 64) (hne : st.iapBuf.getD j 0 ≠ 0xFF)
    (hne' : st'.iapBuf.getD j 0 ≠ 0xFF)
    (hindist : (board rom cfg).flashMachine.Indist (st, f) (st', f')) :
    Spoiled f.mem st ↔ Spoiled f.mem st' := by
  obtain ⟨-, -, hmod, -, -, hhi⟩ := h.unit_spec hcfg hstaged
  have hend := hcfg.flashEnd
  have hunit : st'.unit = st.unit := by rw [FlashState.unit, FlashState.unit, hnext]
  have hsame : st'.staged = st.staged := congrArg (· % 256) hnext.symm
  obtain ⟨g, hcomplete, hg⟩ := flashComplete_accepted hrom hstaged (by omega) h.length
    (.inr fun hr => hr.1 hblank)
  obtain ⟨g', hcomplete', hg'⟩ := flashComplete_accepted (f := f') hrom (hsame.symm ▸ hstaged)
    (by omega) h'.length (.inr fun hr => hr.1 (by rw [← hmem, hunit]; exact hblank))
  rw [acceptedMem, if_neg hlater] at hg
  rw [acceptedMem, hunit, if_neg hlater, ← hmem] at hg'
  have hrest := complete_of_indist hcfg hindist
  have hin := h.complete hrom hcfg f
  have hin' := h'.complete hrom hcfg f'
  rw [hcomplete] at hrest hin
  rw [hcomplete'] at hrest hin'
  have hview : g.mem = g'.mem := hrest.view
  have hstuck := (continued_of_indist hrom hcfg hin hin' hstaged hnext hview hrest).1
  rw [hg, stuck_completed_iff h (by omega) hlater hblank ⟨j, hj, hne⟩] at hstuck
  rw [hstuck, ← hg, hview, hg', ← hunit]
  exact stuck_completed_iff h' (by omega) (hunit.symm ▸ hlater) (hunit.symm ▸ hblank) ⟨j, hj, hne'⟩ _

end Staged

/-! ### All that can be seen -/

/-- **States that cannot be told apart** are at the same stage. -/
theorem sameStage_of_indist (hrom : rom.Succeeds) (hcfg : IsBuild cfg) (h : InArea cfg st)
    (h' : InArea cfg st') (hmem : f.mem = f'.mem)
    (hindist : (board rom cfg).flashMachine.Indist (st, f) (st', f')) : SameStage f.mem st st' := by
  by_cases hstaged : st.staged = 0
  · have hstaged' := staged_of_indist hcfg hindist hstaged
    exact .empty hstaged hstaged' (count_of_indist hrom hcfg h h' hstaged hstaged' hindist)
  have hstaged' : st'.staged ≠ 0 := fun hzero => hstaged (staged_of_indist hcfg hindist.symm hzero)
  replace hstaged := Nat.pos_of_ne_zero hstaged
  replace hstaged' := Nat.pos_of_ne_zero hstaged'
  by_cases hnext : st.nextAddress = st'.nextAddress
  swap
  · obtain ⟨hs, hlast⟩ := stuck_of_next_ne hrom hcfg h hstaged hstaged' hnext hindist
    obtain ⟨hs', hlast'⟩ := stuck_of_next_ne hrom hcfg h' hstaged' hstaged (Ne.symm hnext)
      hindist.symm
    exact .stuck hs (hmem ▸ hs') (.inr ⟨hlast, hlast'⟩)
  obtain ⟨hstuck, hrest⟩ := continued_of_indist hrom hcfg h h' hstaged hnext hmem hindist
  by_cases hs : Stuck f.mem st
  · exact .stuck hs (hstuck.mp hs) (.inl hnext)
  obtain ⟨hcount, hview⟩ := hrest hs
  obtain ⟨-, -, hmod, hlt, -, -⟩ := h.unit_spec hcfg hstaged
  have hunit : st'.unit = st.unit := by rw [FlashState.unit, FlashState.unit, hnext]
  have hsame : st'.staged = st.staged := congrArg (· % 256) hnext.symm
  have hlen := FlashState.continued_length f.mem st
  have hlen' := FlashState.continued_length f.mem st'
  have hbyte : ∀ i < st.staged, (st.continued f.mem).getD i 0 = st.iapBuf.getD i 0 := fun i hi => by
    rw [FlashState.continued_getD f.mem st (by omega), if_pos hi]
  have hbyte' : ∀ i < st.staged, (st'.continued f.mem).getD i 0 = st'.iapBuf.getD i 0 :=
    fun i hi => by rw [FlashState.continued_getD f.mem st' (by omega), if_pos (by omega)]
  by_cases hlater : sectorMap.start st.unit = st.unit
  · -- the first unit of a sector is stored as it is
    rw [acceptedMem, acceptedMem, if_pos hlater, if_pos hlater] at hview
    have hdata : st.continued f.mem = st'.continued f.mem := by
      have hread := congrArg (fun m => read m st.unit 256) hview
      have hleft := fun m => read_write m st.unit (st.continued f.mem)
      have hright := fun m => read_write m st.unit (st'.continued f.mem)
      rw [hlen] at hleft
      rw [hlen'] at hright
      exact (hleft _).symm.trans (hread.trans (hright _))
    rw [hdata] at hcount hbyte
    exact .same hnext hstaged (add_right_cancel hcount) fun i hi => (hbyte i hi).symm.trans (hbyte' i hi)
  rw [acceptedCount, acceptedCount, if_neg hlater, if_neg hlater, add_zero, add_zero] at hcount
  rw [acceptedMem, acceptedMem, if_neg hlater, if_neg hlater, programMem_eq_iff hlen hlen'] at hview
  have hmask : ∀ i < st.staged, f.mem (st.unit + i) &&& st.iapBuf.getD i 0 =
      f.mem (st.unit + i) &&& st'.iapBuf.getD i 0 := fun i hi => by
    rw [← hbyte i hi, ← hbyte' i hi]
    exact hview i (by omega)
  by_cases hblank : Blank f.mem st.unit 64
  swap
  · -- what is staged is what is there
    have hstored : ∀ {s : FlashState}, s.nextAddress = st.nextAddress → ¬Stuck f.mem s →
        ∀ i < st.staged, s.iapBuf.getD i 0 = f.mem (st.unit + i) := by
      intro s hs hfree i hi
      have hu : s.unit = st.unit := by rw [FlashState.unit, FlashState.unit, hs]
      have hk : s.staged = st.staged := congrArg (· % 256) hs
      by_contra hne
      exact hfree ⟨hk ▸ hstaged, hu ▸ hlater, hu ▸ hblank, i, hk ▸ hi, hu ▸ hne⟩
    exact .same hnext hstaged hcount fun i hi =>
      (hstored rfl hs i hi).trans (hstored hnext.symm (mt hstuck.mpr hs) i hi).symm
  by_cases hff : ∀ i < 64, st.iapBuf.getD i 0 = 0xFF
  · exact .masked hnext hstaged hcount hlater hblank hmask (.inl hff)
  obtain ⟨j, hj⟩ := not_forall.mp hff
  obtain ⟨hj, hne⟩ := Classical.not_imp.mp hj
  have hne' : st'.iapBuf.getD j 0 ≠ 0xFF := by
    have hfirst := hmask j (by omega)
    rw [hblank _ ⟨by omega, by omega⟩, allOnes_and, allOnes_and] at hfirst
    rwa [← hfirst]
  have hspoiled := spoiled_of_indist hrom hcfg h h' hstaged hnext hmem hlater hblank hj hne hne' hindist
  by_cases hsp : Spoiled f.mem st
  · exact .masked hnext hstaged hcount hlater hblank hmask (.inr ⟨hsp, hspoiled.mp hsp⟩)
  · -- both can be stored
    have hsp' := mt hspoiled.mpr hsp
    refine .same hnext hstaged hcount fun i hi => ?_
    have hstore : f.mem (st.unit + i) &&& st.iapBuf.getD i 0 = st.iapBuf.getD i 0 := by
      by_contra hne
      exact hsp ⟨i, hi, hne⟩
    have hstore' : f.mem (st.unit + i) &&& st'.iapBuf.getD i 0 = st'.iapBuf.getD i 0 := by
      by_contra hne
      exact hsp' ⟨i, hsame.symm ▸ hi, hunit.symm ▸ hne⟩
    rw [← hstore, hmask i hi, hstore']

/-- **Two states with the same flash content** cannot be told apart exactly if they are at the same
stage. -/
theorem indist_iff (hrom : rom.Succeeds) (hcfg : IsBuild cfg) (h : InArea cfg st)
    (h' : InArea cfg st') (hmem : f.mem = f'.mem) :
    (board rom cfg).flashMachine.Indist (st, f) (st', f') ↔ SameStage f.mem st st' :=
  ⟨sameStage_of_indist hrom hcfg h h' hmem, SameStage.indist hrom hcfg h h' hmem⟩

end Lpc176x

end Terraboot

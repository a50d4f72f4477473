import NemoServer.Laws.UsageRows
import NemoServer.Management.RelayUsage
import NemoServer.Server.Sample

/-!
# The report of hbbr, as hbbs reads it

* `usage_report_read`: what hbbr answers to `uj` at any time of a run is read back as one sample for
  each session that has been measured, with its label, its bytes and its time.

hbbr puts the text together without a serializer, since "every value is a number, a hex label or an
ip:port". It is the text that `Json.write` gives for the samples, and that text is read back.
-/

set_option autoImplicit false

namespace NemoServer

namespace Relay

open Str Management

/-! ## The text of a report -/

/-- The samples of a report, with the addresses they go by. -/
def samples (s : Statics) : List (String × RelayUsageSample) :=
  s.usage.filterMap fun e =>
    if e.2.1 = 0 then none
    else some (e.1,
      { session := (s.sessionLabels.lookup e.1).getD ""
        bytes := e.2.2.1 / 8
        kbps := e.2.2.2.2
        peakKbps := e.2.2.2.1
        ms := e.2.1 })

/-- The object of a sample. -/
def sampleJson (e : String × RelayUsageSample) : Json :=
  .obj [("session", .str e.2.session), ("addr", .str e.1), ("ms", .number (.nat e.2.ms)),
    ("bytes", .number (.nat e.2.bytes)), ("kbps", .number (.nat e.2.kbps)),
    ("peak_kbps", .number (.nat e.2.peakKbps))]

/-- The text of it in a report. -/
def sampleText (e : String × RelayUsageSample) : String :=
  "\x7b\"session\":\"" ++ e.2.session ++ "\",\"addr\":\"" ++ e.1 ++ "\",\"ms\":" ++
    toString e.2.ms ++ ",\"bytes\":" ++ toString e.2.bytes ++ ",\"kbps\":" ++ toString e.2.kbps ++
    ",\"peak_kbps\":" ++ toString e.2.peakKbps ++ "\x7d"

/-- The texts of a report are plain, and its numbers are those of `u64`. -/
structure Legible (s : Statics) : Prop where
  addrs : ∀ e ∈ s.usage, Json.Plain e.1
  counts : ∀ e ∈ s.usage, e.2.1 < 2 ^ 64 ∧ e.2.2.1 < 2 ^ 64 ∧ e.2.2.2.1 < 2 ^ 64 ∧ e.2.2.2.2 < 2 ^ 64
  labels : ∀ e ∈ s.sessionLabels, Json.Plain e.2

theorem showUsageJson_eq (s : Statics) :
    showUsageJson s = "[" ++ ",".intercalate ((samples s).map sampleText) ++ "]\n" := by
  unfold showUsageJson samples
  rw [List.map_filterMap]
  refine congrArg (fun l => "[" ++ ",".intercalate l ++ "]\n") (congrArg (List.filterMap · s.usage) ?_)
  funext ⟨addr, elapsed, totalBits, highestKbps, kbps⟩
  dsimp only
  split
  · rfl
  · rfl

theorem toList_sampleText {e : String × RelayUsageSample} (hlabel : Json.Plain e.2.session)
    (haddr : Json.Plain e.1) : (sampleText e).toList = Json.write (sampleJson e) := by
  have hwrite : Json.write (sampleJson e) = '\x7b' :: (Json.writeStr "session" ++
      ':' :: (Json.write (.str e.2.session) ++ ',' :: (Json.writeStr "addr" ++
      ':' :: (Json.write (.str e.1) ++ ',' :: (Json.writeStr "ms" ++
      ':' :: (Json.write (.number (.nat e.2.ms)) ++ ',' :: (Json.writeStr "bytes" ++
      ':' :: (Json.write (.number (.nat e.2.bytes)) ++ ',' :: (Json.writeStr "kbps" ++
      ':' :: (Json.write (.number (.nat e.2.kbps)) ++ ',' :: (Json.writeStr "peak_kbps" ++
      ':' :: (Json.write (.number (.nat e.2.peakKbps)) ++ ['\x7d'])))))))))))) := rfl
  have hnames : Json.writeStr "session" = "\"session\"".toList ∧
      Json.writeStr "addr" = "\"addr\"".toList ∧ Json.writeStr "ms" = "\"ms\"".toList ∧
      Json.writeStr "bytes" = "\"bytes\"".toList ∧ Json.writeStr "kbps" = "\"kbps\"".toList ∧
      Json.writeStr "peak_kbps" = "\"peak_kbps\"".toList := by decide
  obtain ⟨hsession, haddrName, hms, hbytes, hkbps, hpeak⟩ := hnames
  rw [hwrite, hsession, haddrName, hms, hbytes, hkbps, hpeak, Json.write_str_of_plain hlabel,
    Json.write_str_of_plain haddr, Json.write_nat, Json.write_nat, Json.write_nat, Json.write_nat]
  unfold sampleText
  simp

/-! ## Its reading -/

theorem readU64_nat {n : ℕ} (h : n < 2 ^ 64) : readU64 (.number (.nat n)) = some n := by
  have htext : String.ofList (Json.Number.nat n).text = toString n :=
    Nat.toString_eq_ofList_toDigits.symm
  unfold readU64
  dsimp only
  rw [htext]
  exact parseU64_toString h

theorem ofJson_sampleJson {e : String × RelayUsageSample} (hms : e.2.ms < 2 ^ 64)
    (hbytes : e.2.bytes < 2 ^ 64) (hkbps : e.2.kbps < 2 ^ 64) (hpeak : e.2.peakKbps < 2 ^ 64) :
    RelayUsageSample.ofJson (sampleJson e) = some e.2 := by
  unfold sampleJson RelayUsageSample.ofJson
  have hsession {s : String} : readString (.str s) = some s := rfl
  simp [readField, hsession, readU64_nat hms, readU64_nat hbytes, readU64_nat hkbps,
    readU64_nat hpeak]

theorem Legible.mem_samples {s : Statics} (h : Legible s) {e : String × RelayUsageSample}
    (he : e ∈ samples s) : Json.Plain e.2.session ∧ Json.Plain e.1 ∧ e.2.ms < 2 ^ 64 ∧
      e.2.bytes < 2 ^ 64 ∧ e.2.kbps < 2 ^ 64 ∧ e.2.peakKbps < 2 ^ 64 := by
  obtain ⟨row, hrow, heq⟩ := List.mem_filterMap.1 he
  split at heq
  · cases heq
  · rw [← Option.some.inj heq]
    obtain ⟨hms, hbits, hpeak, hkbps⟩ := h.counts row hrow
    refine ⟨?_, h.addrs row hrow, hms, Nat.lt_of_le_of_lt (Nat.div_le_self _ _) hbits, hkbps, hpeak⟩
    dsimp only
    cases hlabel : s.sessionLabels.lookup row.1 with
    | none => exact fun c hc => absurd hc List.not_mem_nil
    | some label =>
      obtain ⟨front, back, heq', -⟩ := List.lookup_eq_some_iff.1 hlabel
      exact h.labels (row.1, label) (heq' ▸ List.mem_append_right _ List.mem_cons_self)

theorem toList_showUsageJson {s : Statics} (h : Legible s) :
    (showUsageJson s).toList = Json.write (.arr ((samples s).map sampleJson)) ++ ['\n'] := by
  have htexts : ((samples s).map sampleText).map String.toList =
      ((samples s).map sampleJson).map Json.write := by
    rw [List.map_map, List.map_map]
    refine List.map_congr_left fun e he => ?_
    obtain ⟨hlabel, haddr, -⟩ := h.mem_samples he
    exact toList_sampleText hlabel haddr
  rw [showUsageJson_eq, Json.write_arr, ← htexts]
  simp [String.toList_intercalate]

theorem mapM_sampleJson {l : List (String × RelayUsageSample)}
    (h : ∀ e ∈ l, RelayUsageSample.ofJson (sampleJson e) = some e.2) :
    (l.map sampleJson).mapM RelayUsageSample.ofJson = some (l.map Prod.snd) := by
  induction l with
  | nil => rfl
  | cons e l ih =>
    rw [List.map_cons, List.mapM_cons, h e List.mem_cons_self,
      ih fun x hx => h x (List.mem_cons_of_mem e hx)]
    rfl

/-- What `uj` answers is read back. -/
theorem readRelayUsage_showUsageJson {s : Statics} (h : Legible s) :
    readRelayUsage (showUsageJson s) = some ((samples s).map Prod.snd) := by
  have htext : showUsageJson s =
      String.ofList (Json.write (.arr ((samples s).map sampleJson)) ++ ['\n']) := by
    rw [← toList_showUsageJson h, String.ofList_toList]
  have hblank : ∀ c ∈ ['\n'], Json.isBlank c = true := by
    intro c hc
    rw [List.mem_singleton.1 hc]
    rfl
  unfold readRelayUsage
  rw [htext, Json.read_write _ hblank]
  refine mapM_sampleJson fun e he => ?_
  obtain ⟨-, -, hms, hbytes, hkbps, hpeak⟩ := h.mem_samples he
  exact ofJson_sampleJson hms hbytes hkbps hpeak

/-! ## The names of sessions -/

theorem isAlphanum_of_mem_toDigits {n : ℕ} {c : Char} (h : c ∈ Nat.toDigits 16 n) :
    c.isAlphanum = true := by
  have hdigit : ∀ m < 16, m.digitChar.isAlphanum = true := by decide
  induction n using Nat.strong_induction_on with
  | _ n ih =>
    by_cases hn : n < 16
    · rw [Nat.toDigits_of_lt_base hn, List.mem_singleton] at h
      rw [h]
      exact hdigit n hn
    · rw [Nat.toDigits_of_base_le (by omega) (by omega), List.mem_append, List.mem_singleton] at h
      rcases h with h | rfl
      · exact ih (n / 16) (by omega) h
      · exact hdigit (n % 16) (by omega)

theorem plain_ipv4 (ip : Ipv4Addr) : Json.Plain ip.toText := by
  have hdot : Json.Plain "." := Json.plain_literal (by decide)
  unfold Ipv4Addr.toText
  exact Json.plain_append (Json.plain_append (Json.plain_append (Json.plain_append
    (Json.plain_append (Json.plain_append (Json.plain_toString _) hdot) (Json.plain_toString _))
    hdot) (Json.plain_toString _)) hdot) (Json.plain_toString _)

theorem plain_segments (l : List UInt16) : Json.Plain (":".intercalate (l.map Ipv6Addr.hex)) := by
  refine Json.plain_intercalate (Json.plain_literal (by decide)) fun s hs => ?_
  obtain ⟨segment, -, rfl⟩ := List.mem_map.1 hs
  intro c hc
  rw [Ipv6Addr.hex, String.toList_ofList] at hc
  exact Json.escape_of_isAlphanum (isAlphanum_of_mem_toDigits hc)

theorem plain_ip (ip : IpAddr) : Json.Plain ip.toText := by
  cases ip with
  | v4 ip => exact plain_ipv4 ip
  | v6 ip =>
    show Json.Plain ip.toText
    unfold Ipv6Addr.toText
    split
    · exact Json.plain_append (Json.plain_literal (by decide)) (plain_ipv4 _)
    · dsimp only
      split
      · exact Json.plain_append (Json.plain_append (plain_segments _) (Json.plain_literal (by decide)))
          (plain_segments _)
      · exact plain_segments _

theorem plain_relaySessionLabel (D : Deps) (grant : String) :
    Json.Plain (D.relaySessionLabel grant) := by
  have hdigit : ∀ m < 16, m.digitChar.isAlphanum = true := by decide
  intro c hc
  rw [Deps.relaySessionLabel, String.toList_ofList] at hc
  obtain ⟨b, -, hc⟩ := List.mem_flatMap.1 hc
  have hb := b.toNat_lt
  refine Json.escape_of_isAlphanum ?_
  rw [Deps.hexByte, List.mem_cons, List.mem_singleton] at hc
  rcases hc with rfl | rfl
  · exact hdigit _ (by omega)
  · exact hdigit _ (by omega)

/-- A session goes by the address of the side that came second, and has the label of its grant. -/
def Traffic.Named (D : Deps) : Traffic → Prop
  | .begins _ id ip label _ => ∃ (addr : SocketAddr) (grant : String),
    id = addr.ip.toText ++ ":" ++ toString addr.port.toNat ∧ ip = addr.ip.toText ∧
      label = D.relaySessionLabel grant
  | _ => True

/-! ## What is counted fits -/

/-- The numbers of a session are those of `usize`. -/
def Session.Fits (x : Session) : Prop :=
  x.total < 2 ^ 64 ∧ x.totalS < 2 ^ 64 ∧ x.highestS < 2 ^ 64

theorem Session.select_fits {x z : Session} {arm : Arm} (hin : (x.select arm).InRange)
    (h : (x.select arm).val = some z) (hx : x.Fits) : z.Fits := by
  obtain ⟨htotal, htotalS, hhighest⟩ := hx
  cases arm with
  | received len sent =>
    simp only [Session.select, Arith.inRange_bind, Arith.inRange_natOp, Arith.inRange_pure,
      and_true] at hin
    obtain ⟨hnb, hsum, hsumS⟩ := hin
    simp only [Session.select, Arith.val_bind, Arith.val_pure, Arith.val_natOp hnb] at h hsum hsumS
    split at h
    · cases h
    · rw [← Option.some.inj h, Arith.val_natOp hsum, Arith.val_natOp hsumS]
      exact ⟨hsum, hsumS, hhighest⟩
  | closed => cases h
  | tick idle =>
    simp only [Session.select, Arith.val_pure] at h
    split at h
    · cases h
    · rw [← Option.some.inj h]
      exact ⟨htotal, htotalS, hhighest⟩

/-- A row that a measurement writes has numbers of `u64`. -/
theorem Session.measure_fits {z w : Session} {s s' : Statics} {millis : ℕ}
    (hin : (z.measure s millis).InRange) (h : (z.measure s millis).val = (some w, s'))
    (hz : z.Fits) : w.Fits ∧ s'.sessionLabels = s.sessionLabels ∧
      (s'.usage = s.usage ∨ ∃ row : Usage, s'.usage = insertEntry s.usage z.id row ∧
        row.1 < 2 ^ 64 ∧ row.2.1 < 2 ^ 64 ∧ row.2.2.1 < 2 ^ 64 ∧ row.2.2.2 < 2 ^ 64) := by
  obtain ⟨htotal, htotalS, hhighest⟩ := hz
  unfold Session.measure at h hin
  dsimp only at h hin
  split at h
  · obtain ⟨hw, hs⟩ := Prod.mk.inj h
    rw [← Option.some.inj hw, ← hs]
    exact ⟨⟨htotal, htotalS, hhighest⟩, rfl, .inl rfl⟩
  · next hsecond =>
    rw [if_neg hsecond] at hin
    split at h
    · cases (Prod.mk.inj h).1
    · next hblocked =>
      rw [if_neg hblocked, Arith.inRange_bind, Arith.inRange_natOp] at hin
      have helapsed := hin.1
      rw [Arith.val_bind, Arith.val_natOp helapsed] at h
      have hspeed : z.totalS / (millis % 2 ^ 64) < 2 ^ 64 :=
        Nat.lt_of_le_of_lt (Nat.div_le_self _ _) htotalS
      have hpeak : max z.highestS (z.totalS / (millis % 2 ^ 64)) < 2 ^ 64 :=
        Nat.max_lt.2 ⟨hhighest, hspeed⟩
      have hzero : 0 < 2 ^ 64 := by decide
      split at h
      · obtain ⟨hw, hs⟩ := Prod.mk.inj h
        rw [← Option.some.inj hw, ← hs]
        exact ⟨⟨htotal, hzero, hpeak⟩, rfl, .inr ⟨_, rfl, helapsed, htotal, hpeak, hspeed⟩⟩
      · obtain ⟨hw, hs⟩ := Prod.mk.inj h
        rw [← Option.some.inj hw, ← hs]
        exact ⟨⟨htotal, hzero, hpeak⟩, rfl, .inr ⟨_, rfl, helapsed, htotal, hpeak, hspeed⟩⟩

theorem Legible.forget {s : Statics} (h : Legible s) (id : String) :
    Legible (Relaying.forget s id) :=
  ⟨fun e he => h.addrs e (List.mem_filter.1 he).1, fun e he => h.counts e (List.mem_filter.1 he).1,
    fun e he => h.labels e (List.mem_filter.1 he).1⟩

namespace Relaying

variable {X : Floats} {D : Deps} {s : Relaying} {k : ℕ} {x : Pump}

/-- The report is legible, and stays so. -/
structure Printable (s : Relaying) : Prop where
  legible : Legible s.statics
  pumps : ∀ k x, s.pumps k = some x → Json.Plain x.session.id ∧ x.session.Fits

theorem Printable.insert (h : s.Printable) {statics : Statics} (hlegible : Legible statics)
    (hid : Json.Plain x.session.id) (hfits : x.session.Fits) :
    Printable ⟨statics, s.pumps.insert k x⟩ := by
  refine ⟨hlegible, fun j y hy => ?_⟩
  obtain ⟨-, rfl⟩ | ⟨-, hy⟩ := Table.insert_eq_some.1 hy
  · exact ⟨hid, hfits⟩
  · exact h.pumps j y hy

theorem Printable.round {ready : Ready} {received checked restarted : ℕ} (h : s.Printable)
    (hx : s.pumps k = some x)
    (hin : (x.round s.statics ready received checked restarted).InRange)
    {r : Pump × Statics} (hr : (x.round s.statics ready received checked restarted).val = r) :
    Printable ⟨if r.1.on then r.2 else Relaying.forget r.2 x.session.id, s.pumps.insert k r.1⟩ := by
  obtain ⟨hid, hfits⟩ := h.pumps k x hx
  have hpass := x.pass_session received ready
  cases hsel : (x.session.select (x.arm received ready)).val with
  | none =>
    rw [(Pump.round_of_none _ _ _ hsel).1] at hr
    rw [← hr]
    refine h.insert (h.legible.forget _) ?_ ?_
    · show Json.Plain (x.pass received ready).session.id
      rw [hpass]
      exact hid
    · show (x.pass received ready).session.Fits
      rw [hpass]
      exact hfits
  | some z =>
    obtain ⟨hval, hrange⟩ := Pump.round_of_some s.statics checked restarted hsel
    obtain ⟨hselin, hmeasurein⟩ := hrange.1 hin
    rw [hval] at hr
    have hz := Session.select_fits hselin hsel hfits
    have hzid := Session.select_id hsel
    cases hm : (z.measure s.statics (asMillis (checked - x.tm))).val with
    | mk w statics =>
      rw [hm] at hr
      cases w with
      | none =>
        rw [← hr, Session.measure_left hm]
        exact h.insert (h.legible.forget _) (hzid ▸ hid) hz
      | some w =>
        obtain ⟨hw, hlabels, husage⟩ := Session.measure_fits hmeasurein hm hz
        have hwid : w.id = z.id := by
          obtain ⟨rfl, -⟩ | ⟨hwid, -⟩ := Session.measure_row hm
          · rfl
          · exact hwid
        have hlegible : Legible statics := by
          rcases husage with husage | ⟨row, husage, hrow⟩
          · exact ⟨husage ▸ h.legible.addrs, husage ▸ h.legible.counts, hlabels ▸ h.legible.labels⟩
          · refine ⟨fun e he => ?_, fun e he => ?_, hlabels ▸ h.legible.labels⟩
            · rw [husage] at he
              obtain rfl | he := mem_insertEntry he
              · exact hzid ▸ hid
              · exact h.legible.addrs e he
            · rw [husage] at he
              obtain rfl | he := mem_insertEntry he
              · exact hrow
              · exact h.legible.counts e he
        rw [← hr]
        refine h.insert ?_ ?_ ?_
        · split
          · exact hlegible
          · exact hlegible.forget _
        · show Json.Plain w.id
          exact hwid ▸ hzid ▸ hid
        · exact hw

theorem Printable.statics (h : s.Printable) {statics : Statics}
    (husage : statics.usage = s.statics.usage)
    (hlabels : statics.sessionLabels = s.statics.sessionLabels) :
    Printable { s with statics := statics } :=
  ⟨⟨husage ▸ h.legible.addrs, husage ▸ h.legible.counts, hlabels ▸ h.legible.labels⟩, h.pumps⟩

theorem Printable.begins (h : s.Printable) {id ip label : String} {now : ℕ}
    (hnamed : Traffic.Named D (.begins k id ip label now)) :
    Printable (s.step X (.begins k id ip label now)).val := by
  obtain ⟨addr, grant, rfl, -, rfl⟩ := hnamed
  have hid : Json.Plain (addr.ip.toText ++ ":" ++ toString addr.port.toNat) :=
    Json.plain_append (Json.plain_append (plain_ip _) (Json.plain_literal (by decide)))
      (Json.plain_toString _)
  have hzero : 0 < 2 ^ 64 := by decide
  refine h.insert ⟨fun e he => ?_, fun e he => ?_, fun e he => ?_⟩ hid ⟨hzero, hzero, hzero⟩
  · obtain rfl | he := mem_insertEntry he
    · exact hid
    · exact h.legible.addrs e he
  · obtain rfl | he := mem_insertEntry he
    · exact ⟨hzero, hzero, hzero, hzero⟩
    · exact h.legible.counts e he
  · obtain rfl | he := mem_insertEntry he
    · exact plain_relaySessionLabel D grant
    · exact h.legible.labels e he

theorem Printable.step (h : s.Printable) {e : Traffic} (hnamed : e.Named D)
    (hin : (s.step X e).InRange) : Printable (s.step X e).val := by
  cases e with
  | command cmd =>
    obtain ⟨husage, hlabels⟩ := checkCmd_sessions X cmd s.statics
    rw [Relaying.step, Arith.val_bind]
    exact h.statics husage hlabels
  | begins k id ip label now => exact h.begins hnamed
  | round k ready received checked restarted =>
    cases hx : s.pumps k with
    | none =>
      simp only [Relaying.step, hx, Arith.val_pure]
      exact h
    | some x =>
      cases hon : x.on with
      | false =>
        simp only [Relaying.step, hx, hon]
        exact h
      | true =>
        simp only [Relaying.step, hx, hon, if_true, Arith.inRange_bind] at hin
        simp only [Relaying.step, hx, hon, if_true, Arith.val_bind]
        exact h.round hx hin.1 rfl

theorem printable_run (X : Floats) (env : ParamVars) {events : List Traffic}
    (hin : (run X env events).InRange) (hnamed : ∀ e ∈ events, e.Named D) :
    Printable (run X env events).val := by
  induction events with
  | nil =>
    obtain ⟨husage, hlabels⟩ := checkParams_sessions X env Statics.initial
    refine ⟨⟨fun e he => ?_, fun e he => ?_, fun e he => ?_⟩, fun k x hx => by cases hx⟩
    · exact absurd (husage ▸ he) List.not_mem_nil
    · exact absurd (husage ▸ he) List.not_mem_nil
    · exact absurd (hlabels ▸ he) List.not_mem_nil
  | cons e past ih =>
    obtain ⟨hval, hrange⟩ := run_cons X env e past
    obtain ⟨hpast, hlast⟩ := hrange.1 hin
    rw [hval]
    exact (ih hpast fun e' he' => hnamed e' (List.mem_cons_of_mem e he')).step
      (hnamed e List.mem_cons_self) hlast

/-! ## The labels -/

/-- The label of the session `k`. -/
def labelOf (k : ℕ) : List Traffic → Option String
  | [] => none
  | .begins j _ _ label _ :: past => if j = k then some label else labelOf k past
  | _ :: past => labelOf k past

/-- Each session that is relayed has its label in `SESSION_LABELS`. -/
def Labelled (s : Relaying) (events : List Traffic) : Prop := ∀ k x, s.On k x →
  ∃ label, labelOf k events = some label ∧ s.statics.sessionLabels.lookup x.session.id = some label

/-- A session that a round leaves on was on before, under its address and with its label. -/
theorem on_round (h : s.Rows) (hx : s.On k x) {ready : Ready}
    {received checked restarted : ℕ} {r : Pump × Statics}
    (hr : (x.round s.statics ready received checked restarted).val = r) {j : ℕ} {y : Pump}
    (hy : On ⟨if r.1.on then r.2 else Relaying.forget r.2 x.session.id, s.pumps.insert k r.1⟩ j y) :
    ∃ z, s.On j z ∧ z.session.id = y.session.id ∧
      (if r.1.on then r.2 else Relaying.forget r.2 x.session.id).sessionLabels.lookup
        y.session.id = s.statics.sessionLabels.lookup y.session.id := by
  have hround : r.1.session.id = x.session.id ∧
      r.2.sessionLabels = s.statics.sessionLabels := by
    have hpass := x.pass_session received ready
    cases hsel : (x.session.select (x.arm received ready)).val with
    | none =>
      rw [(Pump.round_of_none _ _ _ hsel).1] at hr
      rw [← hr]
      exact ⟨congrArg Session.id hpass, rfl⟩
    | some z =>
      rw [(Pump.round_of_some _ _ _ hsel).1] at hr
      have hzid := Session.select_id hsel
      cases hm : (z.measure s.statics (asMillis (checked - x.tm))).val with
      | mk w statics =>
        rw [hm] at hr
        cases w with
        | none =>
          rw [← hr, Session.measure_left hm]
          exact ⟨hzid, rfl⟩
        | some w =>
          rw [← hr]
          obtain ⟨rfl, rfl⟩ | ⟨hwid, -, -, -, -, rfl⟩ := Session.measure_row hm
          · exact ⟨hzid, rfl⟩
          · exact ⟨hwid.trans hzid, rfl⟩
  rw [on_insert] at hy
  obtain ⟨rfl, rfl, hon⟩ | ⟨hj, hy⟩ := hy
  · refine ⟨x, hx, hround.1.symm, ?_⟩
    rw [if_pos hon, hround.2]
  · have hother : y.session.id ≠ x.session.id := fun heq => hj (h.apart j k y x hy hx heq)
    refine ⟨y, hy, rfl, ?_⟩
    split
    · rw [hround.2]
    · rw [Relaying.forget, lookup_removeEntry, if_neg hother, hround.2]

theorem Labelled.step (h : s.Rows) {events : List Traffic} (hl : s.Labelled events) {e : Traffic}
    (hapart : s.Apart e) : Labelled (s.step X e).val (e :: events) := by
  cases e with
  | command cmd =>
    have hlabels := (checkCmd_sessions X cmd s.statics).2
    rw [Relaying.step, Arith.val_bind, Arith.val_pure]
    generalize (checkCmd X cmd s.statics).val.2 = statics at hlabels ⊢
    intro k x hx
    obtain ⟨label, hlabel, hlook⟩ := hl k x hx
    refine ⟨label, hlabel, ?_⟩
    dsimp only
    rw [hlabels]
    exact hlook
  | begins k id ip label now =>
    obtain ⟨-, hid⟩ := hapart
    intro j y hy
    rw [Relaying.step, Arith.val_pure, on_insert] at hy
    rw [Relaying.step, Arith.val_pure]
    dsimp only
    rw [lookup_insertEntry]
    obtain ⟨rfl, rfl, -⟩ | ⟨hj, hy⟩ := hy
    · exact ⟨label, if_pos rfl, if_pos rfl⟩
    · obtain ⟨label', hlabel', hlook⟩ := hl j y hy
      refine ⟨label', ?_, ?_⟩
      · rw [labelOf, if_neg (Ne.symm hj)]
        exact hlabel'
      · rw [if_neg (hid j y hy)]
        exact hlook
  | round k ready received checked restarted =>
    have hsame : ∀ s', s' = s → s'.Labelled (.round k ready received checked restarted :: events) := by
      rintro s' rfl
      exact hl
    cases hx : s.pumps k with
    | none =>
      refine hsame _ ?_
      simp only [Relaying.step, hx, Arith.val_pure]
    | some x =>
      cases hon : x.on with
      | false =>
        refine hsame _ ?_
        simp only [Relaying.step, hx, hon, Bool.false_eq_true, if_false, Arith.val_pure]
      | true =>
        simp only [Relaying.step, hx, hon, if_true, Arith.val_bind]
        intro j y hy
        obtain ⟨z, hz, hzid, hlook⟩ := on_round h ⟨hx, hon⟩ rfl hy
        obtain ⟨label, hlabel, hlookz⟩ := hl j z hz
        refine ⟨label, hlabel, ?_⟩
        rw [hzid] at hlookz
        exact hlook.trans hlookz

theorem labelled_run (X : Floats) (env : ParamVars) {events : List Traffic}
    (hin : (run X env events).InRange)
    (hapart : ∀ e past, e :: past <:+ events → Apart (run X env past).val e) :
    Labelled (run X env events).val events := by
  induction events with
  | nil =>
    rintro k x ⟨hx, -⟩
    cases hx
  | cons e past ih =>
    obtain ⟨hval, hrange⟩ := run_cons X env e past
    obtain ⟨hpast, -⟩ := hrange.1 hin
    have hbefore : ∀ e' past', e' :: past' <:+ past → Apart (run X env past').val e' :=
      fun e' past' hs => hapart e' past' (hs.trans (List.suffix_cons e past))
    rw [hval]
    exact (ih hpast hbefore).step (rows_run X env hpast hbefore) (hapart e past List.suffix_rfl)

/-! ## The samples -/

/-- `y` is the sample of the session `x` with the label `label`. -/
structure SampleOf (x : Pump) (label : String) (y : RelayUsageSample) : Prop where
  session : y.session = label
  bytes : y.bytes = (x.session.total - x.session.totalS) / 8
  ms : y.ms = x.session.elapsed

/-- The samples are those of the sessions that have been measured. -/
theorem exists_of_mem_samples (h : s.Rows) {events : List Traffic} (hl : s.Labelled events)
    {e : String × RelayUsageSample} (he : e ∈ samples s.statics) : ∃ k x label, s.On k x ∧
      x.session.id = e.1 ∧ 0 < x.session.elapsed ∧ labelOf k events = some label ∧
      SampleOf x label e.2 := by
  obtain ⟨row, hrow, heq⟩ := List.mem_filterMap.1 he
  split at heq
  · cases heq
  · next hpos =>
    rw [← Option.some.inj heq]
    have hlook : s.statics.usage.lookup row.1 = some row.2 := lookup_of_mem h.keys hrow
    obtain ⟨k, x, hx, hid⟩ := (h.usage row.1).1 (by rw [hlook]; rfl)
    obtain ⟨peak, speed, hrowx⟩ := h.row k x hx
    rw [hid, hlook] at hrowx
    have hcounts := Option.some.inj hrowx
    obtain ⟨label, hlabel, hlabelLook⟩ := hl k x hx
    rw [hid] at hlabelLook
    refine ⟨k, x, label, hx, hid, ?_, hlabel, ?_⟩
    · rw [hcounts] at hpos
      exact Nat.pos_of_ne_zero hpos
    · refine ⟨?_, ?_, ?_⟩
      · rw [hlabelLook]
        rfl
      · rw [hcounts]
      · rw [hcounts]

theorem exists_mem_samples (h : s.Rows) {events : List Traffic} (hl : s.Labelled events)
    (hx : s.On k x) (hpos : 0 < x.session.elapsed) : ∃ label, labelOf k events = some label ∧
      ∃ e ∈ samples s.statics, x.session.id = e.1 ∧ SampleOf x label e.2 := by
  obtain ⟨peak, speed, hrow⟩ := h.row k x hx
  obtain ⟨label, hlabel, hlook⟩ := hl k x hx
  obtain ⟨front, back, heq, -⟩ := List.lookup_eq_some_iff.1 hrow
  refine ⟨label, hlabel, (x.session.id,
    { session := label
      bytes := (x.session.total - x.session.totalS) / 8
      kbps := speed
      peakKbps := peak
      ms := x.session.elapsed }), ?_, rfl, ⟨rfl, rfl, rfl⟩⟩
  refine List.mem_filterMap.2 ⟨(x.session.id, x.session.elapsed,
    x.session.total - x.session.totalS, peak, speed), ?_, ?_⟩
  · rw [heq]
    exact List.mem_append_right _ List.mem_cons_self
  · dsimp only
    rw [if_neg (by omega), hlook]
    rfl

/-- A session whose parked side writes for two seconds, under the label of its grant. -/
def Sample.reported : List Traffic :=
  [.round 0 (.recv .peer (some [1, 2]) true) 2000000000 2000000000 2000000000,
    .begins 0 "192.0.2.1:4000" "192.0.2.1"
      ((NemoServer.Sample.setup .offer false).relaySessionLabel "grant") 0]

theorem Sample.apart_reported (e : Traffic) (past : List Traffic)
    (h : e :: past <:+ Sample.reported) :
    Apart (run Relay.Sample.floats Relay.Sample.noVars past).val e := by
  obtain heq | h := List.suffix_cons_iff.1 h
  · cases heq
    trivial
  · obtain heq | h := List.suffix_cons_iff.1 h
    · cases heq
      have hnone : ∀ j x, ¬On (run Relay.Sample.floats Relay.Sample.noVars []).val j x := by
        rintro j x ⟨hx, -⟩
        cases hx
      exact ⟨hnone 0, fun j x hx => absurd hx (hnone j x)⟩
    · exact absurd (List.suffix_nil.1 h) (List.cons_ne_nil _ _)

theorem Sample.named_reported (e : Traffic) (h : e ∈ Sample.reported) :
    e.Named (NemoServer.Sample.setup .offer false).toDeps := by
  obtain rfl | h := List.mem_cons.1 h
  · trivial
  · rw [List.mem_singleton.1 h]
    exact ⟨.v4 ⟨192, 0, 2, 1⟩ 4000, "grant", by decide, by decide, rfl⟩

end Relaying

end Relay

end NemoServer

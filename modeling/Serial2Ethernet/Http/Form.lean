/-
# The web form's round trip

A browser submits, for every input that `SSIHandler` renders, the text of its
`name` attribute and the text of its `value` attribute. `submitted_eq` says
which parameter that makes of an input, `reads_back` that the values convert
to words with the bytes of the configuration, and `form_roundtrip` that the
request, in whatever order its parameters come, stores the configuration it
was rendered from. Every conversion spills over the members behind it, and
they are all written after it.
-/
import Serial2Ethernet.Http.Update

namespace Serial2Ethernet
namespace CgiSsi

open Lib Config Flash Httpd

/-! ### The attributes of an input -/

/-- The double quote. -/
def quote : Char := Char.ofNat 34

/-- The text behind `key`, up to the next quote. -/
def attr (key : List Char) : List Char → List Char
  | [] => []
  | c :: html =>
    if key <+: c :: html then ((c :: html).drop key.length).takeWhile (· ≠ quote)
    else attr key html

def inputName (html : List Char) : List Char := attr "name=\"".toList html
def inputValue (html : List Char) : List Char := attr "value=\"".toList html

/-- The parameter submitted for the input of tag `i`. -/
def submitted (w : Web) (i : Fin 39) : Param :=
  ⟨inputName (ssiHandler i.castSucc w), some (inputValue (ssiHandler i.castSucc w))⟩

/-- The form: the inputs of the tags 0 to 38. -/
def form (w : Web) : List Param := (List.finRange 39).map (submitted w)

/-- The first place of `key` is behind `pre`. -/
def FirstBehind (key pre : List Char) : Prop := ∀ n < pre.length, ¬ key <+: pre.drop n ++ key

instance (key pre : List Char) : Decidable (FirstBehind key pre) :=
  inferInstanceAs (Decidable (∀ n < pre.length, _))

theorem takeWhile_quote {text : List Char} (h : quote ∉ text) (post : List Char) :
    (text ++ quote :: post).takeWhile (· ≠ quote) = text := by
  rw [List.takeWhile_append_of_pos fun c hc => by simpa using ne_of_mem_of_not_mem hc h,
    List.takeWhile_cons_of_neg (by simp), List.append_nil]

theorem attr_behind {key : List Char} {text : List Char} (htext : quote ∉ text)
    (post : List Char) : ∀ {pre : List Char}, FirstBehind key pre →
    attr key (pre ++ (key ++ (text ++ quote :: post))) = text
  | [], _ => by
    have hpre : key <+: key ++ (text ++ quote :: post) := List.prefix_append _ _
    have hdrop : (key ++ (text ++ quote :: post)).drop key.length = text ++ quote :: post :=
      List.drop_left
    rw [List.nil_append]
    cases hk : key ++ (text ++ quote :: post) with
    | nil => simp at hk
    | cons c html =>
      rw [hk] at hpre hdrop
      rw [attr, if_pos hpre, hdrop, takeWhile_quote htext]
  | c :: pre, h => by
    have h0 : ¬ key <+: c :: (pre ++ (key ++ (text ++ quote :: post))) := by
      have := h 0 (by simp)
      rw [List.drop_zero] at this
      rw [← List.cons_append, ← List.append_assoc, List.isPrefix_append_of_length (by simp; omega)]
      exact this
    rw [List.cons_append, attr, if_neg h0]
    exact attr_behind htext post fun n hn => h (n + 1) (by simpa using hn)

/-! ### What is submitted -/

/-- A dotted quad, as it is printed. -/
def quadText (a : Fin 4 → UInt8) : List Char := sprintf "%d.%d.%d.%d".toList (quad a)

/-- A number, as it is printed. -/
def wordText (v : UInt32) : List Char := sprintf "%d".toList [.word v]

theorem quote_notMem_printInt (v : ℤ) : quote ∉ printInt v := fun h => by
  rcases mem_printInt h with h | h
  · exact absurd h (by decide)
  · exact absurd h (by decide)

theorem quote_notMem_wordText (v : UInt32) : quote ∉ wordText v := by
  have : wordText v = printInt (signed v) := List.append_nil _
  rw [this]
  exact quote_notMem_printInt _

theorem quote_notMem_quadText (a : Fin 4 → UInt8) : quote ∉ quadText a := by
  have hdot : quote ≠ '.' := by decide
  simp [quadText, quad, sprintf, quote_notMem_printInt, hdot]

theorem sprintf_quad {post : List Char} (h : '%' ∉ post) (a : Fin 4 → UInt8) :
    sprintf ("%d.%d.%d.%d".toList ++ post) (quad a) = quadText a ++ post := by
  have hpost : sprintf post [] = post := by simpa [sprintf] using sprintf_text h [] []
  simp [quadText, quad, sprintf, hpost]

theorem sprintf_word {post : List Char} (h : '%' ∉ post) (v : UInt32) :
    sprintf ("%d".toList ++ post) [.word v] = wordText v ++ post := by
  have hpost : sprintf post [] = post := by simpa [sprintf] using sprintf_text h [] []
  simp [wordText, sprintf, hpost]

/-- The format of an input with the value behind the name. -/
def inputFmt (name directives : String) : String :=
  "<input type=\"text\" name=\"" ++ (name ++ ("\" value=\"" ++
    (directives ++ "\" style=\"width:200pt;\"/>")))

/-- Nothing in the name of an input is taken for an attribute or a directive. -/
def Plain (name : List Char) : Prop :=
  '%' ∉ name ∧ quote ∉ name ∧
    FirstBehind "value=\"".toList ("<input type=\"text\" name=\"".toList ++ (name ++ "\" ".toList))

instance (name : List Char) : Decidable (Plain name) := inferInstanceAs (Decidable (_ ∧ _ ∧ _))

/-- The text the directives print, whatever plain text follows. -/
def Prints (directives : List Char) (args : List Arg) (text : List Char) : Prop :=
  quote ∉ text ∧ ∀ post, '%' ∉ post → sprintf (directives ++ post) args = text ++ post

theorem prints_quad (a : Fin 4 → UInt8) : Prints "%d.%d.%d.%d".toList (quad a) (quadText a) :=
  ⟨quote_notMem_quadText a, fun _ h => sprintf_quad h a⟩

theorem prints_word (v : UInt32) : Prints "%d".toList [.word v] (wordText v) :=
  ⟨quote_notMem_wordText v, fun _ h => sprintf_word h v⟩

theorem plain_tags : ∀ i : Fin 40, Plain (ppcTAGs i).toList := by decide +kernel

section Render

variable {name directives : String} {text : List Char} {args : List Arg}

theorem head_plain : '%' ∉ "<input type=\"text\" name=\"".toList := by decide
theorem between_plain : '%' ∉ "\" value=\"".toList := by decide
theorem tail_plain : '%' ∉ "\" style=\"width:200pt;\"/>".toList := by decide

theorem toList_append_five (a b c d e : String) : (a ++ (b ++ (c ++ (d ++ e)))).toList =
    a.toList ++ (b.toList ++ (c.toList ++ (d.toList ++ e.toList))) := by
  simp only [String.toList_append]

theorem toList_inputFmt (name directives : String) : (inputFmt name directives).toList =
    "<input type=\"text\" name=\"".toList ++ (name.toList ++ ("\" value=\"".toList ++
      (directives.toList ++ "\" style=\"width:200pt;\"/>".toList))) :=
  toList_append_five _ _ _ _ _

theorem sprintf_inputFmt (hname : '%' ∉ name.toList) (htext : Prints directives.toList args text) :
    sprintf (inputFmt name directives).toList args = "<input type=\"text\" name=\"".toList ++
      (name.toList ++ ("\" value=\"".toList ++ (text ++ "\" style=\"width:200pt;\"/>".toList))) := by
  rw [toList_inputFmt, sprintf_text head_plain, sprintf_text hname, sprintf_text between_plain,
    htext.2 _ tail_plain]

/-- The attributes of a rendered input. -/
theorem attrs_inputFmt (hname : Plain name.toList) (htext : Prints directives.toList args text) :
    inputName (sprintf (inputFmt name directives).toList args) = name.toList ∧
      inputValue (sprintf (inputFmt name directives).toList args) = text := by
  obtain ⟨hpct, hquote, hfirst⟩ := hname
  rw [sprintf_inputFmt hpct htext]
  have hhead : "<input type=\"text\" name=\"".toList = "<input type=\"text\" ".toList ++ "name=\"".toList := by
    decide
  have hbetween : "\" value=\"".toList = "\" ".toList ++ "value=\"".toList := by decide
  have htail : "\" style=\"width:200pt;\"/>".toList = quote :: " style=\"width:200pt;\"/>".toList := by
    decide
  constructor
  · have hq : "\" ".toList = quote :: " ".toList := by decide
    rw [hbetween, hq, hhead, List.append_assoc, List.append_assoc, List.cons_append]
    exact attr_behind hquote _ (by decide)
  · rw [hbetween, htail, List.append_assoc, ← List.append_assoc name.toList, ← List.append_assoc]
    exact attr_behind htext.1 _ hfirst

/-- An input whose name is an argument is the input of that name. -/
theorem sprintf_named (hname : '%' ∉ name.toList) (v : UInt32) :
    sprintf (inputFmt "%s" "%d").toList [.str name.toList, .word v] =
      sprintf (inputFmt name "%d").toList [.word v] := by
  have hstr : ∀ rest, sprintf ("%s".toList ++ rest) [.str name.toList, .word v] =
      name.toList ++ sprintf rest [.word v] := fun _ => rfl
  rw [toList_inputFmt, toList_inputFmt, sprintf_text head_plain, sprintf_text head_plain, hstr,
    sprintf_text hname]

end Render

section Submitted

variable (w : Web)

theorem submitted_eq {i : Fin 39} {fmt name directives : String} {text : List Char} {args : List Arg}
    (h : ssiHandler i.castSucc w = sprintf fmt.toList args) (hfmt : fmt = inputFmt name directives)
    (hname : Plain name.toList) (htext : Prints directives.toList args text) :
    submitted w i = ⟨name.toList, some text⟩ := by
  obtain ⟨hn, hv⟩ := attrs_inputFmt hname htext
  rw [submitted, h, hfmt, hn, hv]

/-- The input of the local IP has its value behind the style. -/
theorem submitted_localIp : submitted w 0 = ⟨localIp.name.toList, some (quadText w.store.sCfg.ipAddr)⟩ := by
  have hhtml : ssiHandler (Fin.castSucc 0) w =
      "<input type=\"text\" name=\"local_ip\" style=\"width:200pt;\" value=\"".toList ++
        (quadText w.store.sCfg.ipAddr ++ "\"/>".toList) := by
    have hfmt : "<input type=\"text\" name=\"local_ip\" style=\"width:200pt;\" value=\"%d.%d.%d.%d\"/>".toList =
        "<input type=\"text\" name=\"local_ip\" style=\"width:200pt;\" value=\"".toList ++
          ("%d.%d.%d.%d".toList ++ "\"/>".toList) := by decide
    show sprintf "<input type=\"text\" name=\"local_ip\" style=\"width:200pt;\" value=\"%d.%d.%d.%d\"/>".toList
      (quad w.store.sCfg.ipAddr) = _
    rw [hfmt, sprintf_text (by decide), sprintf_quad (by decide)]
  have hname : "<input type=\"text\" name=\"local_ip\" style=\"width:200pt;\" value=\"".toList =
      "<input type=\"text\" ".toList ++ ("name=\"".toList ++
        ("local_ip".toList ++ quote :: " style=\"width:200pt;\" value=\"".toList)) := by decide
  have hvalue : "<input type=\"text\" name=\"local_ip\" style=\"width:200pt;\" value=\"".toList =
      "<input type=\"text\" name=\"local_ip\" style=\"width:200pt;\" ".toList ++ "value=\"".toList := by decide
  have hn : inputName (ssiHandler (Fin.castSucc 0) w) = "local_ip".toList := by
    rw [hhtml, hname, List.append_assoc, List.append_assoc, List.append_assoc, List.cons_append]
    exact attr_behind (by decide) _ (by decide)
  have hv : inputValue (ssiHandler (Fin.castSucc 0) w) = quadText w.store.sCfg.ipAddr := by
    rw [hhtml, hvalue, List.append_assoc, show "\"/>".toList = quote :: "/>".toList by decide]
    exact attr_behind (quote_notMem_quadText _) _ (by decide)
  rw [submitted, hn, hv]
  rfl

theorem submitted_mask : submitted w 1 = ⟨mask.name.toList, some (quadText w.store.sCfg.ipMask)⟩ :=
  submitted_eq w rfl (by decide) (by decide) (prints_quad _)

theorem submitted_gate : submitted w 2 = ⟨gate.name.toList, some (quadText w.store.sCfg.ipGate)⟩ :=
  submitted_eq w rfl (by decide) (by decide) (prints_quad _)

theorem submitted_lport :
    submitted w 3 = ⟨lport.name.toList, some (wordText w.store.sCfg.listenPort.toUInt32)⟩ :=
  submitted_eq w rfl (by decide) (by decide) (prints_word _)

theorem submitted_rip : submitted w 4 = ⟨rip.name.toList, some (quadText w.store.sCfg.remoteIp)⟩ :=
  submitted_eq w rfl (by decide) (by decide) (prints_quad _)

theorem submitted_rport :
    submitted w 5 = ⟨rport.name.toList, some (wordText w.store.sCfg.remotePort.toUInt32)⟩ :=
  submitted_eq w rfl (by decide) (by decide) (prints_word _)

theorem namedFmt : "<input type=\"text\" name=\"%s\" value=\"%d\" style=\"width:200pt;\"/>" =
    inputFmt "%s" "%d" := by decide

/-- An input named after its tag. -/
theorem submitted_tag {i : Fin 39} {v : UInt32}
    (h : ssiHandler i.castSucc w =
      sprintf "<input type=\"text\" name=\"%s\" value=\"%d\" style=\"width:200pt;\"/>".toList
        [.str (ppcTAGs i.castSucc).toList, .word v]) :
    submitted w i = ⟨(ppcTAGs i.castSucc).toList, some (wordText v)⟩ := by
  have hplain := plain_tags i.castSucc
  rw [namedFmt, sprintf_named hplain.1] at h
  exact submitted_eq w h rfl hplain (prints_word v)

theorem submitted_baudRate (chl : Fin 16) : submitted w ⟨6 + chl, by omega⟩ =
    ⟨(baudRate chl).name.toList, some (wordText (w.store.sCfg.baudRates chl))⟩ := by
  have hchl : (⟨6 + chl.val - 6, by omega⟩ : Fin 16) = chl := Fin.ext (by dsimp only; omega)
  apply submitted_tag
  unfold ssiHandler
  dsimp only [Fin.val_castSucc]
  rw [if_neg (by omega), if_neg (by omega), if_neg (by omega), if_neg (by omega),
    if_neg (by omega), if_neg (by omega), dif_pos (by omega), hchl]
  rfl

theorem submitted_parity (chl : Fin 16) : submitted w ⟨22 + chl, by omega⟩ =
    ⟨(parity chl).name.toList, some (wordText (w.store.sCfg.parities chl).toUInt32)⟩ := by
  have hchl : (⟨22 + chl.val - 22, by omega⟩ : Fin 16) = chl := Fin.ext (by dsimp only; omega)
  apply submitted_tag
  unfold ssiHandler
  dsimp only [Fin.val_castSucc]
  rw [if_neg (by omega), if_neg (by omega), if_neg (by omega), if_neg (by omega),
    if_neg (by omega), if_neg (by omega), dif_neg (by omega), dif_pos (by omega), hchl]
  rfl

theorem submitted_cycle :
    submitted w 38 = ⟨cycle.name.toList, some (wordText w.store.sCfg.queryCycleS.toUInt32)⟩ :=
  submitted_eq w rfl (by decide) (by decide) (prints_word _)

end Submitted

/-! ### What is read back -/

section ReadsBack

variable (ovf : Overflow)

theorem sscanf_quadText (a : Fin 4 → UInt8) : sscanf ovf "%d.%d.%d.%d".toList (quadText a) =
    [(a 0).toUInt32, (a 1).toUInt32, (a 2).toUInt32, (a 3).toUInt32] := by
  have hdot : ∀ s, NoDigit ('.' :: s) := noDigit_cons (by decide)
  have htext : quadText a = printInt (signed (a 0).toUInt32) ++ '.' ::
      (printInt (signed (a 1).toUInt32) ++ '.' :: (printInt (signed (a 2).toUInt32) ++ '.' ::
        (printInt (signed (a 3).toUInt32) ++ []))) := rfl
  have hfmt : "%d.%d.%d.%d".toList = '%' :: 'd' :: '.' :: '%' :: 'd' :: '.' :: '%' :: 'd' :: '.' ::
      '%' :: 'd' :: [] := by decide
  rw [htext, hfmt, sscanf_d _ _ _ (hdot _), sscanf_char _ (by decide), sscanf_d _ _ _ (hdot _),
    sscanf_char _ (by decide), sscanf_d _ _ _ (hdot _), sscanf_char _ (by decide),
    sscanf_d _ _ _ noDigit_nil, sscanf]

theorem sscanf_wordText {fmt : String} (hfmt : fmt = "%d" ∨ fmt = "%u") (v : UInt32) :
    sscanf ovf fmt.toList (wordText v) = [v] := by
  have htext : wordText v = printInt (signed v) ++ [] := rfl
  rcases hfmt with rfl | rfl
  · rw [htext, show "%d".toList = '%' :: 'd' :: [] by decide, sscanf_d _ _ _ noDigit_nil, sscanf]
  · rw [htext, show "%u".toList = '%' :: 'u' :: [] by decide, sscanf_u _ _ _ noDigit_nil, sscanf]

/-- The value converts to words with the bytes that `c` has in the members. -/
def ReadsBack (c : SysConfig) (p : Parameter) (value : List Char) : Prop :=
  (sscanf ovf p.fmt.toList value).length = p.count ∧
    ∀ i < p.count, ∀ j < p.width, ∀ k : Fin 103, k.val = p.off + p.width * i + j →
      byte ((sscanf ovf p.fmt.toList value).getD i 0) j = c k

section

variable {ovf} {c : SysConfig} {p : Parameter}

theorem readsBack_quad (hp : p.fmt = "%d.%d.%d.%d" ∧ p.width = 1 ∧ p.count = 4) {a : Fin 4 → UInt8}
    (ha : ∀ (i : Fin 4) (k : Fin 103), k.val = p.off + i → a i = c k) :
    ReadsBack ovf c p (quadText a) := by
  obtain ⟨hfmt, hwidth, hcount⟩ := hp
  unfold ReadsBack
  rw [hfmt, sscanf_quadText, hwidth, hcount]
  refine ⟨rfl, fun i hi j hj k hk => ?_⟩
  obtain rfl : j = 0 := by omega
  rw [← ha ⟨i, hi⟩ k (by dsimp only; omega)]
  interval_cases i
  · exact byte_toUInt8 _
  · exact byte_toUInt8 _
  · exact byte_toUInt8 _
  · exact byte_toUInt8 _

theorem readsBack_word (hp : (p.fmt = "%d" ∨ p.fmt = "%u") ∧ p.count = 1) {v : UInt32}
    (hv : ∀ j < p.width, ∀ k : Fin 103, k.val = p.off + j → byte v j = c k) :
    ReadsBack ovf c p (wordText v) := by
  obtain ⟨hfmt, hcount⟩ := hp
  unfold ReadsBack
  rw [sscanf_wordText ovf hfmt, hcount]
  refine ⟨rfl, fun i hi j hj k hk => ?_⟩
  obtain rfl : i = 0 := by omega
  exact hv j hj k (by omega)

end

/-- Every parameter is submitted, and its value reads back. -/
theorem reads_back (w : Web) : ∀ p ∈ parameters, ∃ value,
    (⟨p.name.toList, some value⟩ : Param) ∈ form w ∧ ReadsBack ovf w.store.sCfg p value := by
  have hmem : ∀ i, submitted w i ∈ form w := fun i => List.mem_map_of_mem (List.mem_finRange i)
  rw [forall_parameters]
  refine ⟨?_, ?_, ?_, ?_, ?_, ?_, fun chl => ?_, fun chl => ?_, ?_⟩
  · refine ⟨_, submitted_localIp w ▸ hmem 0, readsBack_quad ⟨rfl, rfl, rfl⟩ fun i k hk => ?_⟩
    exact congrArg w.store.sCfg (Fin.ext hk.symm)
  · refine ⟨_, submitted_mask w ▸ hmem 1, readsBack_quad ⟨rfl, rfl, rfl⟩ fun i k hk => ?_⟩
    exact congrArg w.store.sCfg (Fin.ext hk.symm)
  · refine ⟨_, submitted_gate w ▸ hmem 2, readsBack_quad ⟨rfl, rfl, rfl⟩ fun i k hk => ?_⟩
    exact congrArg w.store.sCfg (Fin.ext hk.symm)
  · refine ⟨_, submitted_lport w ▸ hmem 3, readsBack_word ⟨Or.inl rfl, rfl⟩ fun j hj k hk => ?_⟩
    exact w.store.sCfg.listenPort_byte hj hk
  · refine ⟨_, submitted_rip w ▸ hmem 4, readsBack_quad ⟨rfl, rfl, rfl⟩ fun i k hk => ?_⟩
    exact congrArg w.store.sCfg (Fin.ext hk.symm)
  · refine ⟨_, submitted_rport w ▸ hmem 5, readsBack_word ⟨Or.inl rfl, rfl⟩ fun j hj k hk => ?_⟩
    exact w.store.sCfg.remotePort_byte hj hk
  · refine ⟨_, submitted_baudRate w chl ▸ hmem _, readsBack_word ⟨Or.inr rfl, rfl⟩ fun j hj k hk => ?_⟩
    exact w.store.sCfg.baudRates_byte chl hj hk
  · refine ⟨_, submitted_parity w chl ▸ hmem _, readsBack_word ⟨Or.inr rfl, rfl⟩ fun j hj k hk => ?_⟩
    obtain rfl : j = 0 := Nat.lt_one_iff.mp hj
    exact (byte_toUInt8 _).trans (congrArg w.store.sCfg (Fin.ext hk.symm))
  · refine ⟨_, submitted_cycle w ▸ hmem 38, readsBack_word ⟨Or.inl rfl, rfl⟩ fun j hj k hk => ?_⟩
    obtain rfl : j = 0 := Nat.lt_one_iff.mp hj
    exact (byte_toUInt8 _).trans (congrArg w.store.sCfg (Fin.ext hk.symm))

end ReadsBack

/-! ### The round trip -/

theorem names_nodup : (parameters.map fun p => p.name.toList).Nodup := by
  have h : (parameters.map Parameter.name).Nodup := by decide
  have hmap : ((parameters.map Parameter.name).map String.toList).Nodup :=
    List.Nodup.map (fun _ _ e => String.toList_injective e) h
  rwa [List.map_map] at hmap

/-- The inputs of the form have the names of the parameters, each once. -/
theorem form_nodup (w : Web) : ((form w).map Param.name).Nodup := by
  have hsub : (parameters.map fun p => p.name.toList) ⊆ (form w).map Param.name := fun n hn => by
    obtain ⟨p, hp, rfl⟩ := List.mem_map.mp hn
    obtain ⟨value, hmem, -⟩ := reads_back (fun _ _ => 0) w p hp
    exact List.mem_map.mpr ⟨_, hmem, rfl⟩
  have hlen : ((form w).map Param.name).length ≤ (parameters.map fun p => p.name.toList).length := by
    simp [form, parameters]
  exact ((List.subperm_of_subset names_nodup hsub).perm_of_length_le hlen).nodup names_nodup

section RoundTrip

variable (ovf : Overflow) (g : SysConfig) (w : Web) {ps : List Param} (hps : ps.Perm (form w))
include hps

theorem supplied_form {p : Parameter} (hp : p ∈ parameters) : ∃ value,
    supplied p.name ps = some (some value) ∧ ReadsBack ovf w.store.sCfg p value := by
  obtain ⟨value, hmem, hread⟩ := reads_back ovf w p hp
  exact ⟨value, supplied_of_mem ((hps.map Param.name).nodup_iff.mpr (form_nodup w))
    (hps.mem_iff.mpr hmem), hread⟩

theorem parsed_form {p : Parameter} (hp : p ∈ parameters) : ∃ vals, parsed ovf ps p = some vals ∧
    ∀ i < p.count, ∀ j < p.width, ∀ k : Fin 103, k.val = p.off + p.width * i + j →
      byte (vals.getD i 0) j = w.store.sCfg k := by
  obtain ⟨value, hs, hlen, hbytes⟩ := supplied_form ovf w hps hp
  have hw : words ovf ps p = sscanf ovf p.fmt.toList value := by simp [words, hs]
  exact ⟨_, by rw [parsed, hw, if_pos hlen], hbytes⟩

/-- The form is accepted, and `n_cfg` becomes the configuration it was rendered from. -/
theorem form_accepted : (configLoop ovf ps parameters ⟨g, []⟩).1 = .done ∧
    withHeader (configLoop ovf ps parameters ⟨g, []⟩).2.nCfg = withHeader w.store.sCfg := by
  have hdone : (configLoop ovf ps parameters ⟨g, []⟩).1 = .done :=
    (configLoop_done_iff parameters _).mpr fun p hp => by
      obtain ⟨value, hs, -⟩ := supplied_form ovf w hps hp
      obtain ⟨vals, hpar, -⟩ := parsed_form ovf w hps hp
      exact ⟨by simp [hs], fun h => parsed_not_malforms hpar h.1⟩
  refine ⟨hdone, funext fun k => ?_⟩
  unfold withHeader
  rcases member_of_byte k with hk | ⟨p, hp, hmem⟩
  · rw [if_pos hk, if_pos hk]
  · obtain ⟨i, hi, j, hj, hk⟩ := hmem.index
    obtain ⟨vals, hpar, hbytes⟩ := parsed_form ovf w hps hp
    rw [converted_byte hdone hp hpar hi hj hk, hbytes i hi j hj k hk]

end RoundTrip

/-- The default configuration over an erased flash. -/
def defaultWeb : Web := ⟨⟨defaults, ⟨fun _ => 0xFF, 0⟩⟩, 0⟩

end CgiSsi
end Serial2Ethernet

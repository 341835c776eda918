/-
# The form over HTTP

From the bytes that come in to the page that goes out. Whatever the pieces in
which the request comes, the handler is called with the names and values of the
form, and the page that is sent shows the configuration and the status behind
the call, or others that there have been since then (`form_served`). The form of
the page itself, submitted unchanged, keeps the configuration
(`form_resubmitted`), and its request fits into the buffer whatever the
configuration is (`form_fits`).
-/
import Serial2Ethernet.Http.Form
import Serial2Ethernet.Http.Query
import Serial2Ethernet.Http.Requests

namespace Serial2Ethernet
namespace Httpd

open Lib Fs Ssi Config Flash CgiSsi MsgInterface

variable {T : Type} {pl : Platform T}

/-! ### The texts of the tags -/

/-- The text of a tag, in a state of the site. -/
def shownTag (pl : Platform T) (w : Site T) (name : List UInt8) : List UInt8 :=
  getTagInsert (siteEnv pl 0) w (name.takeWhile (· ≠ 0))

/-- The texts are those of the configuration and the status. -/
theorem site_inserts (pl : Platform T) (c : ℕ) (w₀ : Site T) :
    Inserts (siteEnv pl c) (fun w => w.app.web = w₀.app.web) (shownTag pl w₀) := by
  intro w hw name
  have hhandler : (siteEnv pl c).gPfnSSIHandler w = (siteEnv pl 0).gPfnSSIHandler w₀ := by
    show (fun i => gbk (ssiHandler (Fin.ofNat 40 i) w.app.web)) = fun i => gbk (ssiHandler (Fin.ofNat 40 i) w₀.app.web)
    rw [hw]
  unfold shownTag getTagInsert
  rw [hhandler]
  rfl

/-! ### The call -/

variable {fsRoot : List FsdataFile} {s s' : Server (Site T)} {o o' : List Buffer} {c : ℕ} {p : List (List UInt8)}
  {kvs : List (List Char × List Char)}

/-- The handler of the configuration, in the table. -/
def configEntry (pl : Platform T) : Cgi (Site T) :=
  ⟨configCgi, fun w ps => (configCall pl ps (pl.nCfg w.tcp) w.app).map fun a => (text configShtml, w.setApp a)⟩

/-- The parameters of a form, as the server takes them. -/
def formParams (kvs : List (List Char × List Char)) : List Param := (strings kvs).take lwipHttpdMaxCgiParameters

theorem configCgi_plain : 0x3F ∉ configCgi ∧ IsUri configCgi := by
  constructor
  · decide
  · simp [IsUri, configCgi, text]

theorem formUri_ne_root (kvs : List (List Char × List Char)) : formUri configCgi kvs ≠ text "/" := by
  intro h
  have hlen := congrArg List.length h
  have hname : configCgi.length = 11 := by decide
  have hroot : (text "/").length = 1 := by decide
  rw [formUri, List.length_append, hname, hroot] at hlen
  omega

/-- A form without a null pointer is always dealt with. -/
theorem configCall_form (pl : Platform T) (kvs : List (List Char × List Char)) (nCfg : SysConfig) (a : App) :
    ∃ a', configCall pl (formParams kvs) nCfg a = .ok a' := by
  refine (apply_returns a (.config (formParams kvs) nCfg)).mpr ?_
  rintro ⟨-, q, -, -, hnull, -⟩
  rw [formParams, strings, ← List.map_take] at hnull
  exact supplied_strings q.name _ hnull

theorem find_configCgi (pl : Platform T) (hform : IsForm kvs) :
    (siteEnv pl c).gPCGIs.find? (fun cgi => cgi.pcCGIName = (splitUri (formUri configCgi kvs)).1) =
      some (configEntry pl) := by
  rw [(formUri_params configCgi_plain.1 hform).1]
  show List.find? _ (configEntry pl :: _) = _
  rw [List.find?_cons_of_pos (by exact decide_eq_true rfl)]

/-- The handler is called with the names and values of the form. -/
theorem callAt_form {hs : HttpState} (hform : IsForm kvs) (hc : s.conns c = .active hs) (hnone : hs.handle = none)
    (hget : parseLine (requestData (hs.req ++ p)) = .get (formUri configCgi kvs) false) :
    callAt pl s (.recv c (some p) .ok) = some (.config (formParams kvs) (pl.nCfg s.world.tcp)) := by
  have hfor : calledFor (siteEnv pl c) p (s.conns c) = handlerOf (siteEnv pl c) (formUri configCgi kvs) := by
    rw [hc, calledFor, hnone, if_pos (by rfl), hget]
  have hhandler : handlerOf (siteEnv pl c) (formUri configCgi kvs) = some (configEntry pl, formParams kvs) := by
    rw [handlerOf, if_neg (formUri_ne_root kvs), find_configCgi pl hform,
      (formUri_params configCgi_plain.1 hform).2]
    rfl
  show (calledFor (siteEnv pl c) p (s.conns c)).map (Call.of pl s.world.tcp) = _
  rw [hfor, hhandler]
  exact congrArg some (if_pos rfl)

/-! ### The form of the page -/

/-- A text of digits, signs and dots, of no more than `n` characters. -/
def Numeric (n : ℕ) (value : List Char) : Prop :=
  (∀ c ∈ value, c.isDigit = true ∨ c = '-' ∨ c = '.') ∧ value.length ≤ n

theorem natAbs_signed_lt (v : UInt32) : (signed v).natAbs < 10 ^ 10 := by
  have := v.toNat_lt
  unfold signed
  split <;> omega

/-- A number has ten digits at most, and a sign. -/
theorem numeric_printInt (v : UInt32) : Numeric 11 (printInt (signed v)) := by
  refine ⟨fun c hc => (mem_printInt hc).symm.imp_right .inl, ?_⟩
  have hlen : (Nat.toDigits 10 (signed v).natAbs).length ≤ 10 :=
    Nat.toDigits_length 10 _ 10 (by decide) (natAbs_signed_lt v)
  unfold printInt
  split
  · rw [List.length_cons]
    omega
  · omega

theorem Numeric.dot {m n : ℕ} {a b : List Char} (ha : Numeric m a) (hb : Numeric n b) :
    Numeric (m + n + 1) (a ++ '.' :: b) := by
  constructor
  · intro c hc
    rcases List.mem_append.mp hc with hc | hc
    · exact ha.1 c hc
    · rcases List.mem_cons.mp hc with rfl | hc
      · exact .inr (.inr rfl)
      · exact hb.1 c hc
  · have hlen := ha.2
    have hlen' := hb.2
    rw [List.length_append, List.length_cons]
    omega

theorem numeric_wordText (v : UInt32) : Numeric 11 (wordText v) := by
  have htext : wordText v = printInt (signed v) := List.append_nil _
  rw [htext]
  exact numeric_printInt v

theorem numeric_quadText (a : Fin 4 → UInt8) : Numeric 47 (quadText a) := by
  have htext : quadText a = printInt (signed (a 0).toUInt32) ++ '.' :: (printInt (signed (a 1).toUInt32) ++
      '.' :: (printInt (signed (a 2).toUInt32) ++ '.' :: printInt (signed (a 3).toUInt32))) := by
    simp [quadText, quad, sprintf]
  rw [htext]
  exact (numeric_printInt _).dot ((numeric_printInt _).dot ((numeric_printInt _).dot (numeric_printInt _)))

theorem unescaped_of_alphanum {c : Char} (h : c.isAlphanum = true) : Unescaped c := by
  have hlt : c.toNat < 256 := by
    simp only [Char.isAlphanum, Char.isAlpha, Char.isUpper, Char.isLower, Char.isDigit, Bool.or_eq_true,
      Bool.and_eq_true, decide_eq_true_eq, ge_iff_le, UInt32.le_iff_toNat_le] at h
    have hval : c.toNat = c.val.toNat := rfl
    have hz : 'z'.val.toNat = 122 := rfl
    have hZ : 'Z'.val.toNat = 90 := rfl
    have h9 : '9'.val.toNat = 57 := rfl
    omega
  refine ⟨hlt, ?_, ?_, ?_, ?_⟩ <;> rintro rfl <;> exact absurd h (by decide)

theorem Numeric.unescaped {n : ℕ} {value : List Char} (h : Numeric n value) : ∀ c ∈ value, Unescaped c := by
  intro c hc
  rcases h.1 c hc with hdigit | rfl | rfl
  · exact unescaped_of_alphanum (by rw [Char.isAlphanum, hdigit, Bool.or_true])
  · decide
  · decide

/-- A name of letters, digits and `_`. -/
def Named (name : List Char) : Prop := (name.all fun c => c.isAlphanum || c == '_') = true

instance (name : List Char) : Decidable (Named name) := inferInstanceAs (Decidable (_ = true))

theorem Named.unescaped {name : List Char} (h : Named name) : ∀ c ∈ name, Unescaped c ∧ c ≠ '=' := by
  intro c hc
  have hchar := List.all_eq_true.mp h c hc
  rcases Bool.or_eq_true_iff.mp hchar with halpha | hunder
  · refine ⟨unescaped_of_alphanum halpha, ?_⟩
    rintro rfl
    exact absurd halpha (by decide)
  · rw [eq_of_beq hunder]
    decide

/-- What an input of the form submits: a name without escapes, and a number or a quad. -/
structure Input (len : ℕ) (q : Param) : Prop where
  name : Named q.name
  value : ∃ n value, q.value = some value ∧ Numeric n value ∧ q.name.length + n + 2 ≤ len

theorem input_of {name : String} (hname : Named name.toList) {n len : ℕ} {value : List Char}
    (hvalue : Numeric n value) (hlen : name.toList.length + n + 2 ≤ len) : Input len ⟨name.toList, some value⟩ :=
  ⟨hname, n, value, rfl, hvalue, hlen⟩

/-- The bytes an input takes at most: 57 for the four quads. -/
def inputLength (i : Fin 39) : ℕ := if i.val ≤ 2 ∨ i.val = 4 then 57 else 18

theorem tag_name : ∀ i : Fin 39, Named (ppcTAGs i.castSucc).toList ∧ (ppcTAGs i.castSucc).toList.length ≤ 5 := by
  decide +kernel

/-- An input that is named after its tag. -/
theorem input_tag {i : Fin 39} (hi : ¬ (i.val ≤ 2 ∨ i.val = 4)) (v : UInt32) :
    Input (inputLength i) ⟨(ppcTAGs i.castSucc).toList, some (wordText v)⟩ := by
  obtain ⟨hname, hlen⟩ := tag_name i
  refine input_of hname (numeric_wordText v) ?_
  rw [inputLength, if_neg hi]
  omega

theorem submitted_input (w : Web) (i : Fin 39) : Input (inputLength i) (submitted w i) := by
  obtain ⟨i, hi⟩ := i
  have hquad : ∀ {name : String}, Named name.toList → name.toList.length ≤ 8 → ∀ a,
      Input 57 ⟨name.toList, some (quadText a)⟩ :=
    fun hname hlen a => input_of hname (numeric_quadText a) (by omega)
  rcases Nat.lt_or_ge i 6 with hlow | hge
  · have hcases : i = 0 ∨ i = 1 ∨ i = 2 ∨ i = 3 ∨ i = 4 ∨ i = 5 := by omega
    rcases hcases with rfl | rfl | rfl | rfl | rfl | rfl
    · exact submitted_localIp w ▸ hquad (by decide) (by decide) _
    · exact submitted_mask w ▸ hquad (by decide) (by decide) _
    · exact submitted_gate w ▸ hquad (by decide) (by decide) _
    · exact submitted_lport w ▸ input_tag (i := 3) (by decide) _
    · exact submitted_rip w ▸ hquad (by decide) (by decide) _
    · exact submitted_rport w ▸ input_tag (i := 5) (by decide) _
  rcases Nat.lt_or_ge i 22 with hbaud | hge'
  · obtain ⟨chl, rfl⟩ : ∃ chl : Fin 16, i = 6 + chl := ⟨⟨i - 6, by omega⟩, by simp only; omega⟩
    exact submitted_baudRate w chl ▸ input_tag (i := ⟨6 + chl, by omega⟩) (by simp only; omega) _
  rcases Nat.lt_or_ge i 38 with hpar | hge''
  · obtain ⟨chl, rfl⟩ : ∃ chl : Fin 16, i = 22 + chl := ⟨⟨i - 22, by omega⟩, by simp only; omega⟩
    exact submitted_parity w chl ▸ input_tag (i := ⟨22 + chl, by omega⟩) (by simp only; omega) _
  · obtain rfl : i = 38 := by omega
    exact submitted_cycle w ▸ input_tag (i := 38) (by decide) _

section Form

variable {web : Web} (hkvs : (strings kvs).Perm (form web))
include hkvs

theorem mem_form {kv : List Char × List Char} (h : kv ∈ kvs) : ∃ i, submitted web i = ⟨kv.1, some kv.2⟩ := by
  have hmem : (⟨kv.1, some kv.2⟩ : Param) ∈ form web := hkvs.mem_iff.mp (List.mem_map.mpr ⟨kv, h, rfl⟩)
  obtain ⟨i, -, hi⟩ := List.mem_map.mp hmem
  exact ⟨i, hi⟩

/-- Nothing in the form of the page needs escapes. -/
theorem isForm_form : IsForm kvs where
  name kv h := by
    obtain ⟨i, hi⟩ := mem_form hkvs h
    have hinput := submitted_input web i
    rw [hi] at hinput
    exact hinput.name.unescaped
  value kv h := by
    obtain ⟨i, hi⟩ := mem_form hkvs h
    have hinput := submitted_input web i
    rw [hi] at hinput
    obtain ⟨n, value, hvalue, hnum, -⟩ := hinput.value
    obtain rfl := Option.some.inj hvalue
    exact hnum.unescaped

theorem length_form : kvs.length = 39 := by
  have hlen := hkvs.length_eq
  rwa [strings, List.length_map, form, List.length_map, List.length_finRange] at hlen

/-- The handler is given the whole form. -/
theorem formParams_form : formParams kvs = strings kvs := by
  refine List.take_of_length_le ?_
  rw [strings, List.length_map, length_form hkvs]
  decide

theorem length_encodeQuery_form : (encodeQuery kvs).length ≤ 858 := by
  calc (encodeQuery kvs).length ≤ (kvs.map pairLength).sum := length_encodeQuery_le kvs
    _ = ((strings kvs).map fun q => q.name.length + (q.value.getD []).length + 2).sum := by
      rw [strings, List.map_map]
      rfl
    _ = ((form web).map fun q => q.name.length + (q.value.getD []).length + 2).sum := (hkvs.map _).sum_eq
    _ ≤ ((List.finRange 39).map inputLength).sum := by
      rw [form, List.map_map]
      refine List.sum_le_sum fun i _ => ?_
      obtain ⟨n, value, hvalue, hnum, hlen⟩ := (submitted_input web i).value
      show (submitted web i).name.length + ((submitted web i).value.getD []).length + 2 ≤ _
      rw [hvalue]
      exact le_trans (by have := hnum.2; simp only [Option.getD_some]; omega) hlen
    _ = 858 := by decide

theorem length_line_form :
    (getLine (formUri configCgi kvs) (text "HTTP/1.1" ++ crlf)).length ≤ lwipHttpdMaxReqLength := by
  have hquery := length_encodeQuery_form hkvs
  have hname : configCgi.length = 11 := by decide
  have hget : (text "GET ").length = 4 := by decide
  have htail : (text "HTTP/1.1" ++ crlf).length = 10 := by decide
  have hmax : lwipHttpdMaxReqLength = 1023 := rfl
  rw [getLine, List.length_append, List.length_append, List.length_cons, formUri, List.length_append, List.length_cons,
    uriBytes, List.length_map, hname, hget, htail, hmax]
  omega

end Form

section Served

variable (hbody : ∀ f ∈ fsRoot, HasBody f)
include hbody

/-- The step that completes the request does what the handler does. -/
theorem step_form (hinv : ServerInv (siteEnv pl) fsRoot s) {hs : HttpState} (hform : IsForm kvs)
    (hc : s.conns c = .active hs) (hnone : hs.handle = none)
    (hget : parseLine (requestData (hs.req ++ p)) = .get (formUri configCgi kvs) false) {a : App}
    (hcall : configCall pl (formParams kvs) (pl.nCfg s.world.tcp) s.world.app = .ok a) :
    ∃ s₁ o₁, step (siteEnv pl) fsRoot s (.recv c (some p) .ok) = .ok (s₁, o₁) ∧ s₁.world.app = a := by
  have hcalls : (calls pl fsRoot s [.recv c (some p) .ok]).foldlM (Call.apply pl) s.world.app = .ok a := by
    rw [calls, trace_singleton, callAt_form hform hc hnone hget]
    show (configCall pl _ _ _ >>= _) = _
    rw [hcall]
    rfl
  obtain ⟨s₁, o₁, hr⟩ := site_runs hbody hinv ⟨a, hcalls⟩
  have happ := run_calls hbody [.recv c (some p) .ok] hinv
  rw [hr, hcalls] at happ
  obtain ⟨s₂, o₂, o₃, hstep, hnil, -⟩ := run_cons_ok.mp hr
  obtain ⟨rfl, -⟩ := Prod.mk.inj (Except.ok.inj hnil)
  exact ⟨s₂, o₂, hstep, Except.ok.inj happ⟩

/-- Behind the request the connection has the page for its job, with the texts of the tags as they may be. -/
theorem form_job {f : FsdataFile} (hinv : ServerInv (siteEnv pl) fsRoot s) {hs : HttpState} (hform : IsForm kvs)
    (hc : s.conns c = .active hs) (hnone : hs.handle = none)
    (hget : parseLine (requestData (hs.req ++ p)) = .get (formUri configCgi kvs) false) {a : App}
    (hcall : configCall pl (formParams kvs) (pl.nCfg s.world.tcp) s.world.app = .ok a) (hslot : ¬ Full s.fs)
    (hserved : servedUri fsRoot (text configShtml) = some (f, true)) {K : Web → Prop} (hK : K a.web)
    (hstep : step (siteEnv pl) fsRoot s (.recv c (some p) .ok) = .ok (s', o)) :
    OnJob (siteEnv pl) (fun w => K w.app.web) fsRoot c ⟨f, 0, true⟩ s' := by
  have hret : (configEntry pl).pfnCGIHandler s.world
      (extractUriParameters ((splitUri (formUri configCgi kvs)).2.map chars)) =
        .ok (text configShtml, s.world.setApp a) := by
    rw [(formUri_params configCgi_plain.1 hform).2]
    show (configCall pl (formParams kvs) _ _).map _ = _
    rw [hcall]
    rfl
  have hopens : ∃ r, httpFindFile (siteEnv pl c) fsRoot { hs with req := hs.req ++ p } (formUri configCgi kvs) false
      s.fs s.world = .ok r ∧ r.world = s.world.setApp a ∧
        Finds (siteEnv pl c) (fun w => K w.app.web) fsRoot s.fs false r (servedUri fsRoot (text configShtml)) :=
    httpFindFile_cgi hslot { hs with req := hs.req ++ p } (formUri_ne_root kvs) (find_configCgi pl hform) hret
  obtain ⟨r, hfind, hw, hfinds⟩ := hopens
  rw [hserved] at hfinds
  have hweb : K r.world.app.web := by rwa [hw]
  exact (request_onJob hbody (site_keeps pl (fun b => K b.web) c) hinv hc hnone hget hfind hweb
    (headerLen_false f ▸ hfinds) hstep).1

variable {w : Site T} {fs : FsMemory} {pre as : List (Event (Site T))} {s₀ : Server (Site T)} {o₀ : List Buffer}
  {tail : List UInt8}

/-- **A form over HTTP.** A request with a form comes in pieces, among callbacks on other connections. With its
last piece the handler is called with the names and values of the form, and does not fault; what is sent
from then on is the page as it is shown, each tag with its text for a configuration and a status that
there is behind the call or later. -/
theorem form_served (hfree : ∀ i, (fs i).inuse = false)
    (hr₀ : run (step (siteEnv pl) fsRoot) (Server.init w fs) pre = .ok (s₀, o₀)) (hwaits : Gathers c [] s₀)
    (hf : Meets (step (siteEnv pl) fsRoot) (Feeds c) s₀ as) (hr : run (step (siteEnv pl) fsRoot) s₀ as = .ok (s, o))
    (hform : IsForm kvs) (hpieces : Pieces (formUri configCgi kvs) tail (received c as) p) :
    ∃ s₁ o₁, step (siteEnv pl) fsRoot s (.recv c (some p) .ok) = .ok (s₁, o₁) ∧
      configCall pl (formParams kvs) (pl.nCfg s.world.tcp) s.world.app = .ok s₁.world.app ∧
      ∀ f (K : Web → Prop) rest s' o', servedUri fsRoot (text configShtml) = some (f, true) → ¬ Full s.fs →
        K s₁.world.app.web → Meets (step (siteEnv pl) fsRoot) (Lets (fun v => K v.app.web) c) s₁ rest →
        run (step (siteEnv pl) fsRoot) s₁ rest = .ok (s', o') →
        (∃ all, Job.Shows (siteEnv pl c) (fun v => K v.app.web) ⟨f, 0, true⟩ all ∧ s'.queued c <+: all) ∧
          ((s'.conns c).Ended → Job.Delivered (siteEnv pl c) (fun v => K v.app.web) ⟨f, 0, true⟩ (s'.queued c)) := by
  obtain ⟨⟨o, hreach⟩, hs, hc, hnone, hget⟩ := pieces_ask hbody hfree hr₀ hwaits hf hr hpieces
  have hinv := run_inv hbody (pre ++ as) (init_inv (siteEnv pl) fsRoot w hfree) hreach
  obtain ⟨a, hcall⟩ := configCall_form pl kvs (pl.nCfg s.world.tcp) s.world.app
  obtain ⟨s₁, o₁, hstep, rfl⟩ := step_form hbody hinv hform hc hnone hget hcall
  refine ⟨s₁, o₁, hstep, hcall, ?_⟩
  intro f K rest s' o' hserved hslot hK hl hr'
  have hjob := form_job hbody hinv hform hc hnone hget hcall hslot hserved hK hstep
  have hinv₁ := (step_ok hbody hinv hstep).1
  have hK₁ : (fun v : Site T => K v.app.web) s₁.world := hK
  exact (run_onJob hbody (site_keeps pl (fun b => K b.web) c) rest hinv₁ hjob hl hr').shown hK₁

/-- **The form of the page**, submitted over HTTP in any pieces and any order of the inputs, is accepted and
keeps the configuration, whatever it is; if the flash works, any boot loads it. -/
theorem form_resubmitted (hfree : ∀ i, (fs i).inuse = false)
    (hr₀ : run (step (siteEnv pl) fsRoot) (Server.init w fs) pre = .ok (s₀, o₀)) (hwaits : Gathers c [] s₀)
    (hf : Meets (step (siteEnv pl) fsRoot) (Feeds c) s₀ as) (hr : run (step (siteEnv pl) fsRoot) s₀ as = .ok (s, o))
    (hkvs : (strings kvs).Perm (form s.world.app.web))
    (hpieces : Pieces (formUri configCgi kvs) tail (received c as) p) :
    ∃ s₁ o₁, step (siteEnv pl) fsRoot s (.recv c (some p) .ok) = .ok (s₁, o₁) ∧
      getConfig s₁.world.app.web.store = withHeader (getConfig s.world.app.web.store) ∧
      s₁.world.app.web.statusIndex = 9 ∧ (pl.out = allComplete → Persists s₁.world.app.web.store) := by
  obtain ⟨⟨o, hreach⟩, hs, hc, hnone, hget⟩ := pieces_ask hbody hfree hr₀ hwaits hf hr hpieces
  have hinv := run_inv hbody (pre ++ as) (init_inv (siteEnv pl) fsRoot w hfree) hreach
  obtain ⟨hdone, hcfg⟩ := form_accepted pl.ovf (pl.nCfg s.world.tcp) s.world.app.web hkvs
  have haccepted : ¬ Refused pl.ovf (strings kvs) := fun href => (refused_iff (pl.nCfg s.world.tcp)).mp href hdone
  obtain ⟨f, hok, hstore⟩ := configHandler_accepted haccepted pl.out (pl.nCfg s.world.tcp) s.world.app.web
  have hcall : configCall pl (formParams kvs) (pl.nCfg s.world.tcp) s.world.app = .ok ⟨⟨⟨withHeader
      (configLoop pl.ovf (strings kvs) parameters ⟨pl.nCfg s.world.tcp, []⟩).2.nCfg, f⟩, 9⟩, s.world.app.queue⟩ := by
    rw [formParams_form hkvs, configCall, hok]
    rfl
  obtain ⟨s₁, o₁, hstep, happ⟩ := step_form hbody hinv (isForm_form hkvs) hc hnone hget hcall
  refine ⟨s₁, o₁, hstep, ?_⟩
  rw [happ]
  exact ⟨hcfg, rfl, fun hflash => persists_store hflash hstore⟩

end Served

/-- **The form fits.** Whatever the configuration is, the line with which the form of its page is submitted
fits into the buffer for requests, and is understood. -/
theorem form_fits {web : Web} (hkvs : (strings kvs).Perm (form web)) :
    (getLine (formUri configCgi kvs) (text "HTTP/1.1" ++ crlf)).length ≤ lwipHttpdMaxReqLength ∧
      parseLine (requestData [getLine (formUri configCgi kvs) (text "HTTP/1.1" ++ crlf)]) =
        .get (formUri configCgi kvs) false := by
  have hshort := length_line_form hkvs
  have huri := isUri_form configCgi_plain.2 (isForm_form hkvs)
  exact ⟨hshort, (Pieces.of_line huri (lineEnds_getLine huri) hshort).parseLine_eq⟩

/-! ### Forms of the small site -/

def smallSiteStep := step (siteEnv smallPlatform) [pageFile]

theorem smallClient_accepted :
    run (step (siteEnv smallPlatform) [pageFile]) (Server.init smallSite noFiles) [.accept 0] =
      .ok (smallClient, []) := rfl

theorem smallClient_waits : Gathers 0 [] smallClient := ⟨.init, rfl, rfl, rfl⟩

/-- The request of a client with a form. -/
def formLine (kvs : List (List Char × List Char)) : List UInt8 :=
  getLine (formUri configCgi kvs) (text "HTTP/1.1" ++ crlf)

/-- Its first twelve bytes come in, and then another client. -/
def formBegins (kvs : List (List Char × List Char)) : List (Event (Site Unit)) :=
  [.recv 0 (some [(formLine kvs).take 12]) .ok, .accept 1]

theorem formBegins_feeds (kvs : List (List Char × List Char)) :
    Meets (step (siteEnv smallPlatform) [pageFile]) (Feeds 0) smallClient (formBegins kvs) := by
  refine .of_forall fun e he s hp => ?_
  simp only [formBegins, List.mem_cons, List.not_mem_nil, or_false] at he
  rcases he with rfl | rfl
  · exact .inl ⟨_, rfl⟩
  · cases hp

theorem form_pieces {kvs : List (List Char × List Char)} (hform : IsForm kvs)
    (hshort : (formLine kvs).length ≤ lwipHttpdMaxReqLength) : Pieces (formUri configCgi kvs) (text "HTTP/1.1" ++ crlf)
      (received 0 (formBegins kvs)) [(formLine kvs).drop 12] := by
  have huri := isUri_form configCgi_plain.2 hform
  refine .of_cut huri (lineEnds_getLine huri) hshort ?_
  have hname : configCgi.length = 11 := by decide
  rw [formUri, List.length_append, hname]
  omega

theorem formBegins_run {kvs : List (List Char × List Char)} (hform : IsForm kvs)
    (hshort : (formLine kvs).length ≤ lwipHttpdMaxReqLength) : ∃ s o, run smallSiteStep smallClient (formBegins kvs) =
      .ok (s, o) ∧ s.world.app = smallSite.app ∧ ¬ Full s.fs := by
  have hpieces := form_pieces hform hshort
  have hpart : Partly (formUri configCgi kvs) (text "HTTP/1.1" ++ crlf)
    (HttpState.init.req ++ [(formLine kvs).take 12]) := hpieces.partly
  have hstep : smallSiteStep smallClient (.recv 0 (some [(formLine kvs).take 12]) .ok) = .ok
      (smallClient.put 0 ⟨.active { HttpState.init with req := [(formLine kvs).take 12] }, noFiles, ⟨smallSite, []⟩, false⟩,
        [.taken 0 ((formLine kvs).take 12)]) := by
    have hc : smallClient.conns 0 = .active .init := rfl
    unfold smallSiteStep step
    dsimp only
    rw [hc]
    dsimp only
    rw [httpRecv_gathers rfl hpieces.isUri hpart]
    rfl
  exact ⟨_, _, run_cons_ok.mpr ⟨_, _, [], hstep, rfl, rfl⟩, rfl, fun h => by cases h 0⟩

theorem blank_nil : ∀ b ∈ ([] : List UInt8), Blank b := fun _ h => absurd h List.not_mem_nil

def portTag : Tag :=
  ⟨[], text "lport", [], blank_nil, by decide, by decide, by simp [text, Blank, gPcTagLeadOut], blank_nil⟩

def statusTag : Tag :=
  ⟨[], text "status", [], blank_nil, by decide, by decide, by simp [text, Blank, gPcTagLeadOut], blank_nil⟩

def pageTail : PlainText := ⟨text ".", by decide, starts_plain (by decide)⟩

/-- The page of the small site. -/
def sitePage : List Part := [.tag portTag, .tag statusTag, .text pageTail]

theorem sitePage_data : pageFile.data = sitePage.flatMap Part.bytes := by decide

theorem sitePage_last (t : PlainText) (h : sitePage.getLast? = some (.text t)) : t.bytes ≠ [] := by
  obtain rfl := Part.text.inj (Option.some.inj h)
  exact List.cons_ne_nil _ _

/-- Two of the inputs, the last one first. -/
def portForm : List (List Char × List Char) := [("rport".toList, "7".toList), ("lport".toList, "5".toList)]

theorem portForm_isForm : IsForm portForm := by
  have hnames : ∀ text ∈ ["rport".toList, "lport".toList, "7".toList, "5".toList], Named text := by decide
  constructor
  · intro kv h
    rcases List.mem_pair.mp h with rfl | rfl
    · exact (hnames _ (by decide)).unescaped
    · exact (hnames _ (by decide)).unescaped
  · intro kv h c hc
    rcases List.mem_pair.mp h with rfl | rfl
    · exact ((hnames "7".toList (by decide)).unescaped c hc).1
    · exact ((hnames "5".toList (by decide)).unescaped c hc).1

/-- The texts of the small site with a configuration. -/
theorem small_answers {web : Web} {w : Site Unit} (hw : w.app.web = web) (name text : List UInt8)
    (h : Answers (siteEnv smallPlatform 0) (fun v => v.app.web = web) name text) : text = shownTag smallPlatform w name := by
  subst hw
  exact (site_inserts smallPlatform 0 w).answers name text h

theorem form_served_small : ∃ s o, run smallSiteStep smallClient (formBegins portForm) = .ok (s, o) ∧
    ∃ s₁ o₁, smallSiteStep s (.recv 0 (some [(formLine portForm).drop 12]) .ok) = .ok (s₁, o₁) ∧
      configCall smallPlatform (strings portForm) 0 smallSite.app = .ok s₁.world.app ∧
      ∃ s' o', run smallSiteStep s₁ [.accept 2] = .ok (s', o') ∧
        s'.queued 0 <+: sitePage.flatMap (Part.shown (shownTag smallPlatform s₁.world)) ∧
        ((s'.conns 0).Ended → s'.queued 0 = sitePage.flatMap (Part.shown (shownTag smallPlatform s₁.world))) := by
  have hshort : (formLine portForm).length ≤ lwipHttpdMaxReqLength := by decide
  obtain ⟨s, o, hr, happ, hslot⟩ := formBegins_run portForm_isForm hshort
  have hserved : servedUri [pageFile] (text configShtml) = some (pageFile, true) := by decide
  obtain ⟨s₁, o₁, hstep, hcall, hshown⟩ := form_served page_body noFiles_free smallClient_accepted smallClient_waits
    (formBegins_feeds portForm) hr portForm_isForm (form_pieces portForm_isForm hshort)
  obtain ⟨s', o', hr'⟩ : ∃ s' o', run smallSiteStep s₁ [.accept 2] = .ok (s', o') := by
    rw [run_singleton]
    unfold smallSiteStep step
    dsimp only
    cases s₁.conns 2 <;> exact ⟨_, _, rfl⟩
  have hlets : Meets smallSiteStep (Lets (fun v => v.app.web = s₁.world.app.web) 0) s₁ [.accept 2] := by
    refine ⟨⟨rfl, fun h => ?_, fun h => ?_⟩, fun _ _ => trivial⟩
    · cases h
    · cases h
  obtain ⟨⟨all, hall, hpre⟩, hend⟩ := hshown pageFile (· = s₁.world.app.web) _ s' o' hserved hslot rfl hlets hr'
  have hans := small_answers (w := s₁.world) rfl
  rw [happ] at hcall
  refine ⟨s, o, hr, s₁, o₁, hstep, hcall, s', o', hr', ?_, fun he => ?_⟩
  · rw [← (hall.shownAs sitePage_data rfl rfl).eq_shown hans]
    exact hpre
  · have hends := (hend he).endsAs sitePage_data sitePage_last rfl rfl
    exact hends.eq_shown rfl hans

/-- The inputs of the form, filled in as the page has them. -/
def filled (web : Web) : List (List Char × List Char) := (form web).map fun q => (q.name, q.value.getD [])

theorem strings_filled (web : Web) : strings (filled web) = form web := by
  unfold strings filled form
  rw [List.map_map, List.map_map]
  exact List.map_congr_left fun i _ => rfl

theorem form_fits_small : (formLine (filled smallSite.app.web)).length ≤ lwipHttpdMaxReqLength ∧
    parseLine (requestData [formLine (filled smallSite.app.web)]) =
      .get (formUri configCgi (filled smallSite.app.web)) false :=
  form_fits (.of_eq (strings_filled smallSite.app.web))

theorem strings_reverse (web : Web) : (strings (filled web).reverse).Perm (form web) := by
  rw [← strings_filled web, strings, List.map_reverse]
  exact List.reverse_perm _

/-- The inputs come from the last to the first. -/
theorem form_resubmitted_small : ∃ s o,
    run smallSiteStep smallClient (formBegins (filled smallSite.app.web).reverse) = .ok (s, o) ∧
    ∃ s₁ o₁, smallSiteStep s (.recv 0 (some [(formLine (filled smallSite.app.web).reverse).drop 12]) .ok) = .ok (s₁, o₁) ∧
      getConfig s₁.world.app.web.store = withHeader defaults ∧ s₁.world.app.web.statusIndex = 9 ∧
      Persists s₁.world.app.web.store := by
  generalize hweb : smallSite.app.web = web
  have hkvs := strings_reverse web
  have hform := isForm_form hkvs
  obtain ⟨s, o, hr, happ, -⟩ := formBegins_run hform (length_line_form hkvs)
  have hkvs' : (strings (filled web).reverse).Perm (form s.world.app.web) := by rwa [happ, hweb]
  obtain ⟨s₁, o₁, hstep, hcfg, hstatus, hpersists⟩ := form_resubmitted page_body noFiles_free smallClient_accepted
    smallClient_waits (formBegins_feeds _) hr hkvs' (form_pieces hform (length_line_form hkvs))
  rw [happ] at hcfg
  exact ⟨s, o, hr, s₁, o₁, hstep, hcfg, hstatus, hpersists rfl⟩

end Httpd
end Serial2Ethernet

import Domiform.Compile.Numbers
import Domiform.Compile.Plugin

/-! Broker urls: an optional scheme, a host, an optional port and trailing slashes. The parser takes
every url of this form as it is meant. It also takes some that are not of it, where a host has a
colon or a slash in it or a port begins with a sign. -/
namespace Domiform
open Text

/-- A host is a text without the two characters that end it. -/
def HostText (host : List Char) : Prop := host ≠ [] ∧ '/' ∉ host ∧ ':' ∉ host

/-- What follows a host: nothing, or a colon and a port. -/
inductive PortText : List Char → ℕ → Prop
  | unset : PortText [] 1883
  | given {digits : List Char} {n : ℕ} : Decimal digits n → n ≤ 65535 → PortText (':' :: digits) n

/-- The url of a broker at a host and a port. -/
def BrokerUrl (u : String) (host : List Char) (port : ℕ) : Prop :=
  ∃ scheme ∈ ["","mqtt://","tcp://"], ∃ portText slashes,
    u.toList = scheme.toList ++ (host ++ portText ++ slashes) ∧
      HostText host ∧ PortText portText port ∧ ∀ c ∈ slashes, c = '/'

namespace BrokerUrl
variable {u : String} {host portText slashes s : List Char} {port : ℕ}

/-- What follows the scheme. -/
def unschemed (u : String) : List Char :=
  ((stripPrefix u.toList "mqtt://").orElse fun _ => stripPrefix u.toList "tcp://").getD u.toList

/-- The url without its scheme and its trailing slashes. -/
def body (u : String) : List Char := ((unschemed u).reverse.dropWhile (· == '/')).reverse

/-- Nothing that the parser takes is left to misread: before the last colon there is no other one
and no slash, and after it no sign. -/
def Plain (u : String) : Prop :=
  match rsplitOnce ':' (body u) with
  | none => '/' ∉ body u
  | some (host,port) =>
    host = [] ∨ parseUnsigned 65535 port = none ∨
      ('/' ∉ host ∧ ':' ∉ host ∧ port.head? ≠ some '+')

/-- The url is parsed exactly, and checked by what it parses as. -/
structure Exact (u : String) : Prop where
  parsed : ∀ host port, parseMqttUrl u = some (host,port) ↔ BrokerUrl u host port
  checked : ∀ (lib : Libraries) (config : Value) (context : String) (cfg : Zigbee2MqttConfig),
    Zigbee2MqttConfig.decode config = some cfg → cfg.url = u →
      (Plugin.zigbee2mqtt.validateConfig lib config context = [] ↔
        ∃ host port, BrokerUrl u host port)

theorem slash_not_mem (hhost : HostText host) (hport : PortText portText port) :
    '/' ∉ host ++ portText := by
  rw [List.mem_append,not_or]
  refine ⟨hhost.2.1,?_⟩
  cases hport with
  | unset => exact List.not_mem_nil
  | given hd _ =>
    rw [List.mem_cons,not_or]
    exact ⟨by decide,hd.not_mem (by decide)⟩

/-- A scheme of letters is no part of what follows it. -/
theorem not_schemed {p : String} {x : List Char}
    (hcolon : ':' ∉ p.toList) (hslash : '/' ∉ p.toList) (hhost : HostText host)
    (hport : PortText portText port) (hslashes : ∀ c ∈ slashes, c = '/') :
    host ++ (portText ++ slashes) ≠ p.toList ++ ':' :: '/' :: '/' :: x := by
  -- the colon of a scheme would be that of a port, whose digits cannot begin with a slash
  have htail : portText ++ slashes ≠ ':' :: '/' :: '/' :: x := by
    intro h
    cases hport with
    | unset => exact absurd (hslashes ':' (by rw [List.nil_append] at h; simp [h])) (by decide)
    | @given digits _ hd _ =>
      cases digits with
      | nil => exact hd.1 rfl
      | cons c digits =>
        simp only [List.cons_append,List.cons.injEq,true_and] at h
        exact absurd (hd.isDigit c List.mem_cons_self) (by rw [h.1]; decide)
  intro h
  rcases List.append_eq_append_iff.mp h with ⟨a,ha,hb⟩ | ⟨a,ha,hb⟩
  · cases a with
    | nil => exact htail hb
    | cons c a =>
      have hmem : c ∈ p.toList := by rw [ha]; simp
      cases hport with
      | unset => exact hslash (hslashes c (by rw [List.nil_append] at hb; simp [hb]) ▸ hmem)
      | given => exact hcolon ((List.cons.inj hb).1 ▸ hmem)
  · cases a with
    | nil => exact htail hb.symm
    | cons c a =>
      obtain ⟨rfl,-⟩ := List.cons.inj hb
      exact hhost.2.2 (by rw [ha]; simp)

/-- The scheme is taken off, and only it. -/
theorem unschemed_eq {scheme : String} (hs : scheme ∈ ["","mqtt://","tcp://"])
    (hu : u.toList = scheme.toList ++ (host ++ portText ++ slashes)) (hhost : HostText host)
    (hport : PortText portText port) (hslashes : ∀ c ∈ slashes, c = '/') :
    unschemed u = host ++ portText ++ slashes := by
  have hnone : ∀ p : String, ':' ∉ p.toList → '/' ∉ p.toList → scheme = "" →
      stripPrefix u.toList (p ++ "://") = none := by
    rintro p hcolon hslash rfl
    cases h : stripPrefix u.toList (p ++ "://") with
    | none => rfl
    | some x =>
      have hx := stripPrefix_eq_some.mp h
      rw [hu] at hx
      exact absurd (by simpa using hx)
        (@not_schemed _ _ _ _ _ x hcolon hslash hhost hport hslashes)
  have hmqtt : scheme = "mqtt://" ∨ stripPrefix u.toList "mqtt://" = none := by
    simp only [List.mem_cons,List.not_mem_nil,or_false] at hs
    rcases hs with rfl | rfl | rfl
    · exact .inr (hnone "mqtt" (by decide) (by decide) rfl)
    · exact .inl rfl
    · right
      rw [hu]
      rfl
  have htcp : scheme ≠ "" ∨ stripPrefix u.toList "tcp://" = none := by
    by_cases h : scheme = ""
    · exact .inr (hnone "tcp" (by decide) (by decide) h)
    · exact .inl h
  rcases hmqtt with rfl | hmqtt
  · rw [unschemed,stripPrefix_eq_some.mpr hu]
    rfl
  · rw [unschemed,hmqtt]
    simp only [List.mem_cons,List.not_mem_nil,or_false] at hs
    rcases hs with rfl | rfl | rfl
    · rw [htcp.resolve_left (by decide)]
      exact hu
    · rw [stripPrefix_eq_some.mpr hu] at hmqtt
      cases hmqtt
    · rw [stripPrefix_eq_some.mpr hu]
      rfl

/-- What the parser works on says whether the url is a broker's. -/
theorem iff_body : BrokerUrl u host port ↔
    HostText host ∧ ∃ portText, body u = host ++ portText ∧ PortText portText port := by
  constructor
  · rintro ⟨scheme,hs,portText,slashes,hu,hhost,hport,hslashes⟩
    refine ⟨hhost,portText,?_,hport⟩
    rw [body,unschemed_eq hs hu hhost hport hslashes,List.reverse_append,
      List.dropWhile_append_of_pos (by simpa using hslashes),List.reverse_eq_iff]
    have hkeep := slash_not_mem hhost hport
    rw [← List.mem_reverse] at hkeep
    cases hr : (host ++ portText).reverse with
    | nil => rfl
    | cons c cs =>
      rw [hr] at hkeep
      exact List.dropWhile_cons_of_neg (by simpa using fun h => hkeep (by simp [h]))
  · rintro ⟨hhost,portText,hbody,hport⟩
    have hslashes : ∃ slashes, unschemed u = body u ++ slashes ∧ ∀ c ∈ slashes, c = '/' := by
      refine ⟨(unschemed u).rtakeWhile (· == '/'),List.rdropWhile_append_rtakeWhile.symm,?_⟩
      intro c hc
      simpa using List.mem_rtakeWhile_imp hc
    have hscheme : ∃ scheme ∈ ["","mqtt://","tcp://"], u.toList = scheme.toList ++ unschemed u := by
      unfold unschemed
      cases hm : stripPrefix u.toList "mqtt://" with
      | some x => exact ⟨"mqtt://",by simp,stripPrefix_eq_some.mp hm⟩
      | none =>
        cases ht : stripPrefix u.toList "tcp://" with
        | some x => exact ⟨"tcp://",by simp,stripPrefix_eq_some.mp ht⟩
        | none => exact ⟨"",by simp,rfl⟩
    obtain ⟨slashes,hun,hslash⟩ := hslashes
    obtain ⟨scheme,hs,hu⟩ := hscheme
    exact ⟨scheme,hs,portText,slashes,by rw [hu,hun,hbody],hhost,hport,hslash⟩

/-- The parser works on the body, cut at its last colon. -/
theorem parse_of_split {text : List Char} (h : rsplitOnce ':' (body u) = some (host,text)) :
    parseMqttUrl u = (parseUnsigned 65535 text).bind fun port =>
      if host = [] then none else some (host,port) := by
  unfold body unschemed at h
  unfold parseMqttUrl
  simp only [h]
  cases parseUnsigned 65535 text <;> rfl

theorem parse_of_no_colon (h : rsplitOnce ':' (body u) = none) :
    parseMqttUrl u = if body u = [] then none else some (body u,1883) := by
  unfold body unschemed at h
  unfold parseMqttUrl
  simp only [h]
  rfl

/-- A body with a colon is a host and a port around it. -/
theorem iff_of_split {text : List Char} (h : rsplitOnce ':' (body u) = some (s,text)) :
    BrokerUrl u host port ↔ host = s ∧ HostText s ∧ Decimal text port ∧ port ≤ 65535 := by
  obtain ⟨hbody,htext⟩ := rsplitOnce_eq_some.mp h
  rw [iff_body,hbody]
  constructor
  · rintro ⟨hhost,portText,hsplit,hport⟩
    cases hport with
    | unset => exact absurd (by rw [List.append_nil] at hsplit; simp [← hsplit]) hhost.2.2
    | @given digits _ hd hle =>
      have hlast := rsplitOnce_eq_some.mpr ⟨hsplit,hd.not_mem (by decide)⟩
      rw [rsplitOnce_eq_some.mpr ⟨rfl,htext⟩] at hlast
      cases hlast
      exact ⟨rfl,hhost,hd,hle⟩
  · rintro ⟨rfl,hhost,hd,hle⟩
    exact ⟨hhost,_,rfl,.given hd hle⟩

/-- A body without a colon is a host. -/
theorem iff_of_no_colon (h : ':' ∉ body u) :
    BrokerUrl u host port ↔ host = body u ∧ HostText (body u) ∧ port = 1883 := by
  rw [iff_body]
  constructor
  · rintro ⟨hhost,portText,hsplit,hport⟩
    cases hport with
    | unset =>
      rw [List.append_nil] at hsplit
      exact ⟨hsplit.symm,by rwa [hsplit],rfl⟩
    | given => exact absurd (by simp [hsplit]) h
  · rintro ⟨rfl,hhost,rfl⟩
    exact ⟨hhost,[],by simp,.unset⟩

theorem parsed_iff_plain (u : String) :
    (∀ host port, parseMqttUrl u = some (host,port) ↔ BrokerUrl u host port) ↔ Plain u := by
  by_cases hcolon : ':' ∈ body u
  · obtain ⟨host,text,hs⟩ := rsplitOnce_of_mem hcolon
    have hparse : ∀ host' port, parseMqttUrl u = some (host',port) ↔
        host' = host ∧ host ≠ [] ∧ parseUnsigned 65535 text = some port := by
      intro host' port
      rw [parse_of_split hs]
      cases parseUnsigned 65535 text with
      | none => simp
      | some n =>
        by_cases hnil : host = [] <;> simp [hnil,eq_comm]
    have hplain : Plain u ↔ host = [] ∨ parseUnsigned 65535 text = none ∨
        ('/' ∉ host ∧ ':' ∉ host ∧ text.head? ≠ some '+') := by rw [Plain,hs]
    rw [hplain]
    constructor
    · intro h
      cases hn : parseUnsigned 65535 text with
      | none => exact .inr (.inl rfl)
      | some n =>
        by_cases hnil : host = []
        · exact .inl hnil
        · have hurl := (h host n).mp ((hparse host n).mpr ⟨rfl,hnil,hn⟩)
          obtain ⟨-,⟨-,hslash,hcol⟩,hd,-⟩ := (iff_of_split hs).mp hurl
          refine .inr (.inr ⟨hslash,hcol,fun hplus => ?_⟩)
          exact hd.not_mem (by decide : ('+' : Char).isDigit = false)
            (List.mem_of_head? hplus)
    · intro h host' port
      rw [hparse,iff_of_split hs]
      rcases h with rfl | hnone | ⟨hslash,hcol,hplus⟩
      · exact ⟨fun h => absurd rfl h.2.1,fun h => absurd rfl h.2.1.1⟩
      · refine ⟨fun h => absurd (hnone.symm.trans h.2.2) (by simp),fun h => ?_⟩
        have hread := parseUnsigned_eq_some.mpr ⟨.inl h.2.2.1,h.2.2.2⟩
        exact absurd (hnone.symm.trans hread) (by simp)
      · rw [parseUnsigned_eq_some]
        constructor
        · rintro ⟨rfl,hne,hd | ⟨digits,rfl,-⟩,hle⟩
          · exact ⟨rfl,⟨hne,hslash,hcol⟩,hd,hle⟩
          · exact absurd rfl hplus
        · rintro ⟨rfl,hhost,hd,hle⟩
          exact ⟨rfl,hhost.1,.inl hd,hle⟩
  · have hnone := rsplitOnce_eq_none hcolon
    have hplain : Plain u ↔ '/' ∉ body u := by rw [Plain,hnone]
    rw [hplain]
    constructor
    · intro h hslash
      have hne : body u ≠ [] := List.ne_nil_of_mem hslash
      have hparse : parseMqttUrl u = some (body u,1883) := by
        rw [parse_of_no_colon hnone,if_neg hne]
      obtain ⟨-,hhost,-⟩ := (iff_of_no_colon hcolon).mp ((h _ _).mp hparse)
      exact hhost.2.1 hslash
    · intro hslash host port
      rw [parse_of_no_colon hnone,iff_of_no_colon hcolon]
      split_ifs with hne
      · simp [HostText,hne]
      · simp [HostText,hne,hslash,hcolon,eq_comm]

/-- The compiler takes a url exactly when it can be parsed. -/
theorem validateConfig_eq_nil {lib : Libraries} {config : Value} {context : String}
    {cfg : Zigbee2MqttConfig} (hcfg : Zigbee2MqttConfig.decode config = some cfg) :
    Plugin.zigbee2mqtt.validateConfig lib config context = [] ↔
      (parseMqttUrl cfg.url).isSome := by
  simp only [Plugin.validateConfig,hcfg]
  cases parseMqttUrl cfg.url <;> simp

/-- A url is read exactly unless it is taken and has a colon or a slash before its last colon, or
a sign after it. -/
theorem exact_iff_plain (u : String) : Exact u ↔ Plain u := by
  refine ⟨fun h => (parsed_iff_plain u).mp h.parsed,fun h => ?_⟩
  have hparsed := (parsed_iff_plain u).mpr h
  refine ⟨hparsed,fun lib config context cfg hcfg hurl => ?_⟩
  rw [validateConfig_eq_nil hcfg,hurl,Option.isSome_iff_exists,Prod.exists]
  exact exists_congr fun host => exists_congr fun port => hparsed host port

/-- Another scheme is taken for a part of the host. -/
theorem not_exact_mqtts : parseMqttUrl "mqtts://broker:8883" = some ("mqtts://broker".toList,8883) ∧
    ¬Exact "mqtts://broker:8883" := by
  have hparse : parseMqttUrl "mqtts://broker:8883" = some ("mqtts://broker".toList,8883) := by
    decide
  refine ⟨hparse,fun h => ?_⟩
  obtain ⟨hhost,-⟩ := iff_body.mp ((h.parsed _ _).mp hparse)
  exact hhost.2.1 (by decide)

end BrokerUrl
end Domiform

import AmpTuner.Json.Decode

/-!
Settings of the passes. Everything has a default, so that an empty object gives the default settings;
a field that does not exist is refused.
-/

namespace AmpTuner

open Json (Record)

namespace Settings

structure Extensions where
  addMissing : Bool := true
  removeUnused : Bool := true
  renameBind : Bool := false
  /-- Versions to import instead of the latest. -/
  versions : List (String × String) := []
  /-- Extensions that are never added. -/
  ignored : List String := []
deriving Repr, DecidableEq

structure Rendering where
  removeBoilerplate : Bool := true
deriving Repr, DecidableEq

structure RuntimeCss where
  /-- The release whose style sheet is fetched; none means the current one. -/
  version : Option String := none
deriving Repr, DecidableEq

structure Urls where
  /-- Whether the channel with long-term support is used. -/
  longTerm : Bool := false
  /-- A release to use for good. -/
  release : Option String := none
  /-- A host or path that takes the place of the network. -/
  host : Option String := none
  modules : Bool := false
deriving Repr, DecidableEq

/-- Whether any address is to be changed. -/
def Urls.isActive (u : Urls) : Bool :=
  u.longTerm || u.release.isSome || u.host.isSome || u.modules

structure HeroImages where
  most : Nat := 2
deriving Repr, DecidableEq

structure Minify where
  enabled : Bool := false
  removeComments : Bool := true
  collapseBlanks : Bool := true
deriving Repr, DecidableEq

def extensionsRecord : Record Extensions where
  title := "struct AutoExtensionsConfig"
  closed := true
  blank := {}
  fields := [
    .optional "auto_extension_import" .bool fun s addMissing => { s with addMissing },
    .optional "auto_extension_removal" .bool fun s removeUnused => { s with removeUnused },
    .optional "experiment_bind_attribute" .bool fun s renameBind => { s with renameBind },
    .optional "extension_versions" (.dictionary .string) fun s versions => { s with versions },
    .optional "ignore" (.list .string) fun s ignored => { s with ignored }]

def renderingRecord : Record Rendering where
  title := "struct ServerSideRenderingConfig"
  closed := true
  blank := {}
  fields := [
    .optional "remove_boilerplate" .bool fun s removeBoilerplate => { s with removeBoilerplate }]

def runtimeCssRecord : Record RuntimeCss where
  title := "struct AmpRuntimeCssConfig"
  closed := true
  blank := {}
  fields := [.optional "version" (.optional .string) fun s version => { s with version }]

def urlsRecord : Record Urls where
  title := "struct RewriteAmpUrlsConfig"
  closed := true
  blank := {}
  fields := [
    .optional "lts" .bool fun s longTerm => { s with longTerm },
    .optional "rtv" (.optional .string) fun s release => { s with release },
    .optional "amp_url_prefix" (.optional .string) fun s host => { s with host },
    .optional "esm_modules_enabled" .bool fun s modules => { s with modules }]

def heroImagesRecord : Record HeroImages where
  title := "struct PreloadHeroImageConfig"
  closed := true
  blank := {}
  fields := [.optional "max_hero_images" .natural fun s most => { s with most }]

def minifyRecord : Record Minify where
  title := "struct MinifyHtmlConfig"
  closed := true
  blank := {}
  fields := [
    .optional "enabled" .bool fun s enabled => { s with enabled },
    .optional "remove_comments" .bool fun s removeComments => { s with removeComments },
    .optional "collapse_whitespace" .bool fun s collapseBlanks => { s with collapseBlanks }]

end Settings

structure Settings where
  /-- The passes to run, by name and in order; none means the default order. -/
  passes : Option (List String) := none
  extensions : Settings.Extensions := {}
  rendering : Settings.Rendering := {}
  runtimeCss : Settings.RuntimeCss := {}
  urls : Settings.Urls := {}
  heroImages : Settings.HeroImages := {}
  minify : Settings.Minify := {}
deriving Repr, DecidableEq

namespace Settings

def record : Record Settings where
  title := "struct Configuration"
  closed := true
  blank := {}
  fields := [
    .optional "transformers" (.optional (.list .string)) fun s passes => { s with passes },
    .optional "auto_extensions" extensionsRecord.decoder fun s extensions => { s with extensions },
    .optional "server_side_rendering" renderingRecord.decoder fun s rendering =>
      { s with rendering },
    .optional "amp_runtime_css" runtimeCssRecord.decoder fun s runtimeCss => { s with runtimeCss },
    .optional "rewrite_amp_urls" urlsRecord.decoder fun s urls => { s with urls },
    .optional "preload_hero_image" heroImagesRecord.decoder fun s heroImages =>
      { s with heroImages },
    .optional "minify_html" minifyRecord.decoder fun s minify => { s with minify }]

def ofJson (source : String) : Except Json.Error Settings := Json.decode record.decoder source

/-! ## Writing -/

open Json (Value)

/-- The settings with every field spelled out. -/
def toValue (s : Settings) : Value := .object [
  ("transformers", .ofOption (.ofList .string) s.passes),
  ("auto_extensions", .object [
    ("auto_extension_import", .bool s.extensions.addMissing),
    ("auto_extension_removal", .bool s.extensions.removeUnused),
    ("experiment_bind_attribute", .bool s.extensions.renameBind),
    ("extension_versions", .object (s.extensions.versions.map fun (name, v) => (name, .string v))),
    ("ignore", .ofList .string s.extensions.ignored)]),
  ("server_side_rendering", .object [
    ("remove_boilerplate", .bool s.rendering.removeBoilerplate)]),
  ("amp_runtime_css", .object [("version", .ofOption .string s.runtimeCss.version)]),
  ("rewrite_amp_urls", .object [
    ("lts", .bool s.urls.longTerm),
    ("rtv", .ofOption .string s.urls.release),
    ("amp_url_prefix", .ofOption .string s.urls.host),
    ("esm_modules_enabled", .bool s.urls.modules)]),
  ("preload_hero_image", .object [("max_hero_images", .ofNat s.heroImages.most)]),
  ("minify_html", .object [
    ("enabled", .bool s.minify.enabled),
    ("remove_comments", .bool s.minify.removeComments),
    ("collapse_whitespace", .bool s.minify.collapseBlanks)])]

end Settings

end AmpTuner

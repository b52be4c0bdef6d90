import Observatory.Data.FileTree

/-!
# Static files

`root`, `assets` and `root_static` of `apps/api/app.py`: what is served without a session, from the
files that the process can read.  The path a route is given has its escapes decoded already.
-/

namespace Observatory.StaticFiles

open FileTree (Name Node Files)

abbrev Path := List Char

/-- The files, and the working directory. -/
structure Host (C : Type) where
  tree : Files C
  cwd : List Name := []

inductive Reply (C : Type) where
  /-- the file, with its `Cache-Control` -/
  | file (contents : C) (cacheControl : Option String)
  /-- a page made from the text of a file -/
  | html (text : String)
  /-- the page that says that there is no build -/
  | noBuild
  | notFound
  /-- `FileResponse` raises: a directory -/
  | runtimeError (path : Path)
deriving DecidableEq

namespace Host

variable {C : Type} (host : Host C)

def stat (p : Path) : Option (Node C) := host.tree.stat host.cwd p

/-- `os.path.exists`; a path with a NUL does not. -/
def pathExists (p : Path) : Bool := '\x00' ∉ p && (host.stat p).isSome

/-- `FileResponse` -/
def fileResponse (p : Path) (cacheControl : Option String) : Reply C :=
  match host.stat p with
  | some (.file contents) => .file contents cacheControl
  | _ => .runtimeError p

/-- Where the web page is built. -/
def bases : List Path := ["apps/web/dist".toList, "/srv/lumi/apps/web/dist".toList]

/-- `f"{base}/{path}"` -/
def under (base path : Path) : Path := base ++ '/' :: path

/-- The loop over the bases. -/
def serve (path : Path) (cacheControl : Option String) : Reply C :=
  match (bases.map (under · path)).find? host.pathExists with
  | some p => host.fileResponse p cacheControl
  | none => .notFound

/-- `assets` -/
def assets (path : Path) : Reply C := host.serve ("assets/".toList ++ path) none

def allowed : List Path :=
  ["favicon.ico", "favicon-16x16.png", "favicon-32x32.png", "apple-touch-icon.png", "icon-192.png",
    "icon-512.png", "logo.png", "logo-64.png", "logo-128.png"].map String.toList

/-- `root_static` -/
def rootStatic (filename : Path) : Reply C :=
  if filename ∉ allowed then .notFound else host.serve filename (some "public, max-age=86400")

def candidate : Path := "apps/web/dist/index.html".toList

def distIndex : Path := "/srv/lumi/apps/web/dist/index.html".toList

/-- `root`; `readText` is what `read_text` makes of the contents, unless it raises. -/
def root (readText : C → Option String) : Reply C :=
  if host.pathExists distIndex || host.pathExists candidate then
    match host.stat (if host.pathExists candidate then candidate else distIndex) with
    | some (.file contents) => (readText contents).elim .noBuild .html
    | _ => .noBuild
  else .noBuild

end Host

end Observatory.StaticFiles

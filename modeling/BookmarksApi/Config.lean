import BookmarksApi.Text

/-!
# Config — the settings that the application is put together from
-/

/-- `Settings`, as far as `create_app` reads them. -/
structure Settings where
  corsOrigins : Str := ['*']
  corsAllowCredentials : Bool := false
  trustedHosts : Str := ['*']
  securityHeadersEnabled : Bool := true
  hstsEnabled : Bool := false
  maxRequestBytes : ℤ := 1048576

namespace Settings

/-- `_csv`. -/
def csv (value : Str) : List Str := ((Str.split ',' value).map Str.strip).filter (· ≠ [])

/-- `cors_origin_list`. -/
def corsOriginList (settings : Settings) : List Str :=
  if Str.strip settings.corsOrigins = ['*'] then [['*']] else csv settings.corsOrigins

/-- `trusted_host_list`. -/
def trustedHostList (settings : Settings) : List Str :=
  if Str.strip settings.trustedHosts = ['*'] then [['*']] else csv settings.trustedHosts

end Settings

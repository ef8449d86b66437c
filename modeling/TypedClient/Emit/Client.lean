/-!
# Client — the class that sends requests

Generated API classes extend one class that builds addresses, sends requests and reads responses.  Its module is the same
in every run.
-/
namespace TypedClient
namespace Emit

def clientLines : List String :=
  ["// This file is generated. Do not edit.",
   "import axios, \x7b AxiosRequestConfig \x7d from 'axios';",
   "",
   "type Method = AxiosRequestConfig['method'];",
   "",
   "type HeaderDict = \x7b [header: string]: string \x7d;",
   "",
   "type QueryValue = string | number | boolean | Array<string | number | boolean> | undefined | null;",
   "",
   "export interface RequestArguments \x7b",
   "  path: string;",
   "  method: Method;",
   "  query?: \x7b [name: string]: QueryValue \x7d;",
   "  headers?: \x7b [name: string]: unknown \x7d;",
   "  body?: unknown;",
   "\x7d",
   "",
   "export interface Response \x7b",
   "  status: number;",
   "  contentType: string;",
   "  data: any;",
   "\x7d",
   "",
   "function joinUrl(...parts: string[]): string \x7b",
   "  return parts",
   "    .filter((part) => part.length > 0)",
   "    .map((part, index) => \x7b",
   "      const trimmed = part.replace(/\\/+$/, '');",
   "      return index === 0 ? trimmed : trimmed.replace(/^\\/+/, '');",
   "    \x7d)",
   "    .join('/');",
   "\x7d",
   "",
   "export class Client \x7b",
   "  accessToken: string | null;",
   "  headers: HeaderDict;",
   "  parent?: Client;",
   "  path?: string;",
   "",
   "  constructor(parentOrPath?: Client | string, path?: string) \x7b",
   "    this.accessToken = null;",
   "    this.headers = \x7b\x7d;",
   "",
   "    if (parentOrPath instanceof Client) \x7b",
   "      this.parent = parentOrPath;",
   "      this.path = path;",
   "    \x7d else \x7b",
   "      this.path = parentOrPath;",
   "    \x7d",
   "  \x7d",
   "",
   "  getUrl(path?: string): string \x7b",
   "    return joinUrl(",
   "      this.parent ? this.parent.getUrl() : '',",
   "      this.path || '',",
   "      path || '',",
   "    );",
   "  \x7d",
   "",
   "  setAccessToken(token: string) \x7b",
   "    this.accessToken = token;",
   "  \x7d",
   "",
   "  getAccessToken(): string | null \x7b",
   "    if (this.accessToken) \x7b",
   "      return this.accessToken;",
   "    \x7d else if (this.parent) \x7b",
   "      return this.parent.getAccessToken();",
   "    \x7d",
   "    return null;",
   "  \x7d",
   "",
   "  getHeaders(): HeaderDict \x7b",
   "    const headers: HeaderDict = \x7b\x7d;",
   "",
   "    if (this.accessToken) \x7b",
   "      headers['Authentication'] = 'Bearer ' + this.accessToken;",
   "    \x7d",
   "",
   "    return Object.assign(",
   "      \x7b\x7d,",
   "      this.parent ? this.parent.getHeaders() : \x7b\x7d,",
   "      this.headers,",
   "      headers,",
   "    );",
   "  \x7d",
   "",
   "  async request(args: RequestArguments): Promise<Response> \x7b",
   "    const headers = this.getHeaders();",
   "    let body = undefined;",
   "",
   "    for (const [name, value] of Object.entries(args.headers || \x7b\x7d)) \x7b",
   "      if (value !== undefined && value !== null) \x7b",
   "        headers[name] = String(value);",
   "      \x7d",
   "    \x7d",
   "",
   "    if (args.body !== undefined) \x7b",
   "      headers['Content-Type'] = 'application/json';",
   "      body = JSON.stringify(args.body);",
   "    \x7d",
   "",
   "    const params: \x7b [name: string]: QueryValue \x7d = \x7b\x7d;",
   "    for (const [name, value] of Object.entries(args.query || \x7b\x7d)) \x7b",
   "      if (value !== undefined && value !== null) \x7b",
   "        params[name] = value;",
   "      \x7d",
   "    \x7d",
   "",
   "    const res = await axios(\x7b",
   "      url: this.getUrl(args.path),",
   "      method: args.method,",
   "      headers,",
   "      params,",
   "      data: body,",
   "    \x7d);",
   "",
   "    const contentType = String(res.headers['content-type'] || '').split(';')[0].trim();",
   "",
   "    return \x7b",
   "      status: res.status,",
   "      contentType,",
   "      data: res.data,",
   "    \x7d;",
   "  \x7d",
   "\x7d"]

/-- **The text of the client module.** -/
def clientText : String :=
  String.join (clientLines.map (· ++ "\n"))

end Emit
end TypedClient

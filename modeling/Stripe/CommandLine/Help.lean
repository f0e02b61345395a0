import Stripe.CommandLine.Options

/-!
# Help texts

What each of the two programs prints when it is asked for help, line by
line.
-/

namespace Stripe.CommandLine

def serverHelp : List String :=
  ["xblock Server - 확장 블록 모드 스트라이핑 송신자",
   "",
   "N개의 TCP 연결로 파일 하나를 세그먼트 단위로 분산 전송",
   "- 유휴 연결에 세그먼트를 넘겨 느린 연결에는 덜 배분",
   "- 연결별 종료 마커로 완료 알림",
   "",
   "사용법:",
   "  cargo run --release --bin xblock-server -- [OPTIONS]",
   "",
   "옵션:",
   "  -b, --bind <ADDR>         바인드 주소 (기본: 0.0.0.0:9000)",
   "  -f, --file <PATH>         전송할 파일 경로 (없으면 1MB 테스트 데이터)",
   "  -n, --connections <N>     연결 수 (기본: 4)",
   "  --segment-size <SIZE>     세그먼트 최대 크기 바이트 (기본: 65536)",
   "  --low-spec                저사양 설정",
   "  --high-performance        고성능 설정",
   "  -h, --help                이 도움말 출력",
   "",
   "예시:",
   "  # 파일 전송",
   "  cargo run --release --bin xblock-server -- --file large_file.bin",
   "",
   "  # 8개 연결 + 1MB 세그먼트",
   "  cargo run --release --bin xblock-server -- -f data.bin -n 8 --segment-size 1048576",
   ""]

def clientHelp : List String :=
  ["xblock Client - 확장 블록 모드 스트라이핑 수신자",
   "",
   "서버에 N개의 TCP 연결을 열고 세그먼트를 오프셋 순서로 재조립",
   "- 도착 순서와 무관하게 원래 순서 복원",
   "- 한 연결이라도 손상되면 전송 전체 실패",
   "",
   "사용법:",
   "  cargo run --release --bin xblock-client -- [OPTIONS]",
   "",
   "옵션:",
   "  -s, --server <ADDR>       서버 주소 (기본: 127.0.0.1:9000)",
   "  -n, --connections <N>     연결 수 (기본: 4, 서버와 같아야 함)",
   "  -o, --output <PATH>       수신 데이터 저장 경로",
   "  --max-payload <SIZE>      허용 최대 페이로드 바이트 (기본: 16777216)",
   "  --low-spec                저사양 설정",
   "  -h, --help                이 도움말 출력",
   "",
   "예시:",
   "  # 서버에서 파일 수신",
   "  cargo run --release --bin xblock-client -- --server 192.168.1.100:9000 --output received.bin",
   ""]

def helpText : Role → List String
  | .server => serverHelp
  | .client => clientHelp

end Stripe.CommandLine
